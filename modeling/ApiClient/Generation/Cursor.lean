import ApiClient.Generation
import ApiClient.Generation.Emission

/-!
# Files one by one

* `Cursor`: a client with the number of its files that have been asked for;
* `Cursor.part?`: the part of the client at an index;
* `Cursor.next`: asking for the next file;
* `Cursor.remaining?`: the number of files that are left.

A file is written when it is asked for.
-/

namespace ApiClient

/-- A client of which so many files have been asked for. -/
structure Cursor where
  config : Config
  endpoints : List Endpoint
  index : Nat := 0
  deriving DecidableEq, Repr, Inhabited

/-- The files of a client from the first one on. -/
def Generation.cursor (g : Generation) : Cursor := { config := g.config, endpoints := g.endpoints }

namespace Cursor

/-- What asking for a file comes to. -/
inductive Answer (ε : Type) where
  /-- All files have been asked for. -/
  | ended
  /-- A file, or what went wrong while it was written. -/
  | emitted (result : Except ε SourceFile)
  /-- There is no format at the index, although files are left. -/
  | outOfBounds

/-- The number of files of the client: its own and one for every format. -/
def count (c : Cursor) : Nat := 1 + c.config.responseTypes.length

/-- The part at an index, if there is one. The formats are counted from one on. -/
def part? (c : Cursor) (index : Nat) : Option Part :=
  if index = 0 then some .client else (c.config.responseTypes[index - 1]?).map .parser

/-- Writes the file of a part. -/
def emit (ε : Type) (c : Cursor) : Part → Except ε SourceFile
  | .client => SourceFile.emit ε SourceFile.clientModule (Emission.client c.config c.endpoints)
  | .parser format =>
    SourceFile.emit ε (SourceFile.parserModule format) (Emission.parserModule c.config format)

/-- Asks for the next file. The index moves on before the file is looked up. -/
def next (ε : Type) (c : Cursor) : Answer ε × Cursor :=
  if c.count ≤ c.index then (.ended, c)
  else
    let moved : Cursor := { c with index := c.index + 1 }
    match c.part? c.index with
    | none => (.outOfBounds, moved)
    | some part => (.emitted (c.emit ε part), moved)

/-- The number of files that are left. There is none if more files have been asked for than the
client has. -/
def remaining? (c : Cursor) : Option Nat :=
  if c.index ≤ c.count then some (c.count - c.index) else none

end Cursor

end ApiClient
