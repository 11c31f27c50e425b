import ApiClient.Text.Split

/-!
# Paths

A path is a text with slashes between its steps. Nothing about it is simplified unless that is said.

* `Path.join`: one path behind another;
* `Path.parent?`, `Path.fileName?`: a path without its last step, and the name in that step.
-/

namespace ApiClient.Path

/-- A path is absolute if it begins with a slash. -/
def isAbsolute (path : String) : Bool := path.toList.head? == some '/'

/-- The path `right` as seen from `left`. A slash is put between them unless one is there or `left`
is empty, and an absolute path is the same from everywhere. -/
def join (left right : String) : String :=
  if isAbsolute right then right
  else if left.isEmpty || left.toList.getLast? == some '/' then left ++ right
  else left ++ "/" ++ right

/-- The text of a path between its slashes. -/
def pieces (path : String) : List (List Char) := Text.split '/' path.toList

/-- A piece that leads nowhere, unless it is the first one. -/
def isIdle (piece : List Char) : Bool := piece.isEmpty || piece == ['.']

/-- Pieces in reverse without the ones in front that lead nowhere. -/
def dropIdle : List (List Char) → List (List Char)
  | [] => []
  | [piece] => if piece.isEmpty then [] else [piece]
  | piece :: next :: rest => if isIdle piece then dropIdle (next :: rest) else piece :: next :: rest

/-- The path of pieces in reverse. What remains of an absolute path without steps is its slash. -/
def ofPieces (absolute : Bool) (pieces : List (List Char)) : String :=
  if pieces.isEmpty then if absolute then "/" else ""
  else String.ofList (['/'].intercalate pieces.reverse)

/-- A path without its last step. -/
def parent? (path : String) : Option String :=
  match dropIdle (pieces path).reverse with
  | [] => none
  | _ :: before => some (ofPieces (isAbsolute path) (dropIdle before))

/-- The name in the last step of a path, unless that step leads here or upwards. -/
def fileName? (path : String) : Option String :=
  match dropIdle (pieces path).reverse with
  | [] => none
  | piece :: _ =>
    if piece == ['.'] || piece == ['.', '.'] then none else some (String.ofList piece)

end ApiClient.Path
