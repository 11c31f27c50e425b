import ApiClient.Sink
import ApiClient.Text.Quoted

/-!
# Sinks in memory

* `Buffer`: one text for everything, whatever file it belongs to;
* `FileBuffer`: a text for every file, in the order in which the files were begun;
* `Console`: one text again, but with a line for every file that begins.
-/

namespace ApiClient

/-! ## One text -/

/-- A text that grows at its end. -/
structure Buffer where
  text : String := ""
  deriving DecidableEq, Repr, Inhabited

namespace Buffer

/-- The buffer with `data` at its end. -/
def append (b : Buffer) (data : String) : Buffer := { text := b.text ++ data }

/-- Writes everything into one text. It never fails. -/
def sink (ε : Type) : Sink ε Buffer where
  beginFile _ b := { state := b }
  write data b := { state := b.append data }
  newline b := { state := b.append "\n" }

/-- The form of a buffer in messages: its text as a literal. -/
def describe (b : Buffer) : String :=
  "Buffer \x7b data: " ++ Text.Quoted.quote b.text ++ " \x7d"

end Buffer

/-! ## A text for every file -/

/-- Files with their texts. The one that was begun last is being written. -/
structure FileBuffer where
  /-- The files that are complete, in order. -/
  complete : List (String × String) := []
  /-- The file that is being written. -/
  current? : Option (String × String) := none
  deriving DecidableEq, Repr, Inhabited

namespace FileBuffer

/-- What can be wrong with an operation. -/
inductive Fault where
  | noFile
  | repeated (name : String)
  deriving DecidableEq, Repr, Inhabited

/-- The wording of a fault. -/
def Fault.message : Fault → String
  | .noFile => "must begin_file before writing to a FileBuffer"
  | .repeated name => "file '" ++ name ++ "' was already written"

/-- All files in order. -/
def files (b : FileBuffer) : List (String × String) := b.complete ++ b.current?.toList

/-- The names of all files in order. -/
def names (b : FileBuffer) : List String := b.files.map (·.1)

/-- The text of a file. -/
def text? (b : FileBuffer) (name : String) : Option String := b.files.lookup name

/-- Begins a file, unless there is one of its name. -/
def beginFile (name : String) (b : FileBuffer) : Outcome Fault FileBuffer :=
  if b.names.contains name then { state := b, failure? := some (.repeated name) }
  else { state := { complete := b.files, current? := some (name, "") } }

/-- Writes to the file that was begun last. -/
def write (data : String) (b : FileBuffer) : Outcome Fault FileBuffer :=
  match b.current? with
  | none => { state := b, failure? := some .noFile }
  | some (name, text) => { state := { b with current? := some (name, text ++ data) } }

/-- Writes every file into a text of its own. -/
def sink : Sink Fault FileBuffer where
  beginFile := beginFile
  write := write
  newline := write "\n"

end FileBuffer

/-! ## One text with a line for every file -/

namespace Console

/-- What stands before the name of a file if nothing else is asked for. -/
def defaultHeader : String := "// ---"

/-- Writes everything into one text, and `header` with the name of a file where that file begins. It
never fails. -/
def sink (ε : Type) (header : String) : Sink ε Buffer where
  beginFile name b := { state := b.append (header ++ " " ++ name ++ "\n") }
  write data b := { state := b.append data }
  newline b := { state := b.append "\n" }

end Console

end ApiClient
