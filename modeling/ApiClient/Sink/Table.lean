import ApiClient.Entries
import ApiClient.Sink.Buffer

/-!
# Files in two containers

* `FileTable`: a buffer under the name of every file, and the names in order;
* `FileTable.latest?`: the file that was begun last, found through both;
* `FileTable.sink`: beginning files and writing to the latest one.
-/

namespace ApiClient

/-- Files in memory. Nothing in the type keeps the two containers in step. -/
structure FileTable where
  /-- The buffers under their names. Only looked up, so their order does not matter. -/
  data : List (String × Buffer) := []
  /-- The names in the order in which the files were begun. -/
  order : List String := []
  deriving DecidableEq, Repr, Inhabited

namespace FileTable

/-- The text of a file. -/
def text? (t : FileTable) (name : String) : Option String :=
  (Entries.find? name t.data).map Buffer.text

/-- The last name in order with the buffer under it. -/
def latest? (t : FileTable) : Option (String × Buffer) :=
  t.order.getLast?.bind fun name => (Entries.find? name t.data).map (name, ·)

/-- Begins a file, unless there is a buffer under its name. -/
def beginFile (name : String) (t : FileTable) : Outcome FileBuffer.Fault FileTable :=
  if (Entries.find? name t.data).isSome then { state := t, failure? := some (.repeated name) }
  else { state := { data := Entries.insert name {} t.data, order := t.order ++ [name] } }

/-- Does something to the buffer of the latest file. -/
def update (operation : Buffer → Outcome FileBuffer.Fault Buffer) (t : FileTable) :
    Outcome FileBuffer.Fault FileTable :=
  match t.latest? with
  | none => { state := t, failure? := some .noFile }
  | some (name, buffer) =>
    (operation buffer).map fun buffer => { t with data := Entries.insert name buffer t.data }

/-- Writes every file into a buffer of its own. -/
def sink : Sink FileBuffer.Fault FileTable where
  beginFile := beginFile
  write data := update ((Buffer.sink _).write data)
  newline := update (Buffer.sink _).newline

end FileTable

end ApiClient
