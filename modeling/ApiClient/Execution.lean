import ApiClient.Generation
import ApiClient.Sink

/-!
# Execution

Every generated file goes to every sink.

* `Execution.Fault`: why an execution ends early;
* `Execution.writeFile`: one file to one sink;
* `Execution.writeAll`: all files, each to every sink before the next one;
* `execute`: reading, generating and writing.

The sinks share one state, so the same sink may occur several times.
-/

namespace ApiClient

namespace Execution

/-- Why an execution ends early. -/
inductive Fault (ε : Type) where
  | noInputs
  | noOutputs
  | generation (fault : Generation.Fault)
  | sink (fault : ε)
  deriving DecidableEq, Repr, Inhabited

variable {ε σ : Type}

/-- Writes a file to a sink. -/
def writeFile (file : SourceFile) (sink : Sink ε σ) (s : σ) : Outcome ε σ :=
  (sink.beginFile file.name s).andThen (sink.write file.contents)

/-- Writes a file to sinks one after the other, up to the first failure. -/
def writeToEach (file : SourceFile) : List (Sink ε σ) → σ → Outcome ε σ
  | [], s => { state := s }
  | sink :: sinks, s => (writeFile file sink s).andThen (writeToEach file sinks)

/-- Writes files one after the other, each to all sinks, up to the first failure. -/
def writeAll (sinks : List (Sink ε σ)) : List SourceFile → σ → Outcome ε σ
  | [], s => { state := s }
  | file :: files, s => (writeToEach file sinks s).andThen (writeAll sinks files)

end Execution

/-- Reads all sources, generates the files once and writes them to all sinks. Nothing is written if
anything is wrong with the sources. -/
def execute {ε σ : Type} (config : Config) (sources : List Source) (sinks : List (Sink ε σ))
    (s : σ) : Outcome (Execution.Fault ε) σ :=
  if sources.isEmpty then { state := s, failure? := some .noInputs }
  else if sinks.isEmpty then { state := s, failure? := some .noOutputs }
  else
    match Generation.prepare config sources with
    | .error fault => { state := s, failure? := some (.generation fault) }
    | .ok g => (Execution.writeAll sinks g.files s).mapFailure .sink

end ApiClient
