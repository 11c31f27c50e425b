import ApiClient.Failure

/-!
# Outputs

The sinks of an execution, each with what it has taken so far, and what they have in common.

* `Output`: a sink in memory, the console, or a folder;
* `Desk`, `Desk.sink`: one output with the console and the storage that it writes to;
* `Workspace`, `Workspace.sink`: several outputs, told apart by their positions;
* `Workspace.execute`: an execution that writes to some of them.
-/

namespace ApiClient

/-- Something that generated files are written to. -/
inductive Output where
  | buffer (content : Buffer)
  | files (content : FileBuffer)
  /-- The console, which shows `header` before the name of every file. -/
  | console (header : String)
  | folder (content : Folder)
  deriving DecidableEq, Repr, Inhabited

/-! ## One output -/

/-- An output with everything that it can change. -/
structure Desk where
  output : Output
  /-- What the console shows. -/
  shown : Buffer := {}
  storage : Storage
  deriving DecidableEq, Repr, Inhabited

namespace Desk

/-- What an operation that every sink has does to an output. -/
def apply (operation : ∀ {ε σ : Type}, Sink ε σ → σ → Outcome ε σ) (d : Desk) :
    Outcome Failure Desk :=
  match d.output with
  | .buffer content =>
    (operation (Buffer.sink Failure) content).map fun content =>
      { d with output := .buffer content }
  | .files content =>
    ((operation FileBuffer.sink content).map fun content =>
      { d with output := .files content }).mapFailure .fileBuffer
  | .console header =>
    (operation (Console.sink Failure header) d.shown).map fun shown => { d with shown }
  | .folder content =>
    ((operation Folder.sink (content, d.storage)).map fun s =>
      { d with output := .folder s.1, storage := s.2 }).mapFailure .folder

/-- Writes to an output. -/
def sink : Sink Failure Desk where
  beginFile name := apply fun sink => sink.beginFile name
  write data := apply fun sink => sink.write data
  newline := apply fun sink => sink.newline

end Desk

/-! ## Several outputs -/

/-- Outputs with everything that they can change. -/
structure Workspace where
  outputs : List Output := []
  /-- What the console shows. -/
  shown : Buffer := {}
  storage : Storage
  deriving DecidableEq, Repr, Inhabited

namespace Workspace

/-- The output at a position. -/
def desk (index : Nat) (w : Workspace) : Desk :=
  { output := (w.outputs[index]?).getD default, shown := w.shown, storage := w.storage }

/-- Puts an output back at its position. -/
def putDesk (index : Nat) (w : Workspace) (d : Desk) : Workspace :=
  { outputs := w.outputs.set index d.output, shown := d.shown, storage := d.storage }

/-- Writes to the output at a position. -/
def sink (index : Nat) : Sink Failure Workspace := Desk.sink.within (desk index) (putDesk index)

/-- Executes with the outputs at the given positions, in order. A position may occur several times.
-/
def execute (config : Config) (sources : List Source) (targets : List Nat) (w : Workspace) :
    Outcome Failure Workspace :=
  (ApiClient.execute config sources (targets.map sink) w).mapFailure (Failure.ofExecution id)

end Workspace

end ApiClient
