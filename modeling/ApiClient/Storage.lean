import ApiClient.Outcome
import ApiClient.Storage.Path
import ApiClient.Text.Width

/-!
# Storage

A tree of folders and files, and the folder that relative paths start from.

* `Location`, `Entry`, `Storage`: where something is, what it is, and all there is;
* `Storage.Fault`: why a path cannot be used, with its wording;
* `Storage.checkPath`, `checkName`: what no path and no name in it may be;
* `Storage.locate`: the location that a path leads to;
* `Storage.readBytes`, `readText`, `isFolder`, `below`: looking;
* `Storage.createFolder`, `createFolders`, `createFile`, `append`: changing.
-/

namespace ApiClient

/-- Where something is: the names of the folders from the outermost one, and its own. -/
abbrev Location := List String

/-- What is somewhere. -/
inductive Entry where
  | folder
  | file (content : List UInt8)
  deriving DecidableEq, Repr, Inhabited

/-- A tree of folders and files. The outermost folder is always there. -/
structure Storage where
  /-- Everything but the outermost folder. -/
  entries : List (Location × Entry)
  /-- The folder that relative paths start from. -/
  here : Location
  deriving DecidableEq, Repr, Inhabited

namespace Storage

/-! ## Faults -/

/-- Why a path cannot be used. -/
inductive Fault where
  | notFound
  | alreadyThere
  | notFolder
  | isFolder
  /-- A path or a name in it has too many bytes. -/
  | nameTooLong
  /-- There is a zero character in a path. -/
  | zeroInPath
  | notText
  deriving DecidableEq, Repr, Inhabited

/-- The wording of a fault. -/
def Fault.message : Fault → String
  | .notFound => "No such file or directory (os error 2)"
  | .alreadyThere => "File exists (os error 17)"
  | .notFolder => "Not a directory (os error 20)"
  | .isFolder => "Is a directory (os error 21)"
  | .nameTooLong => "File name too long (os error 36)"
  | .zeroInPath => "file name contained an unexpected NUL byte"
  | .notText => "stream did not contain valid UTF-8"

/-! ## Paths and names -/

/-- The bytes of the longest path. -/
def longestPath : Nat := 4095

/-- The bytes of the longest name in a path. -/
def longestName : Nat := 255

/-- Nothing is looked up if a path is empty or too long or holds a zero character. -/
def checkPath (path : String) : Except Fault Unit :=
  if path.toList.contains (Char.ofNat 0) then .error .zeroInPath
  else if path.isEmpty then .error .notFound
  else if longestPath < Text.width path.toList then .error .nameTooLong
  else .ok ()

/-- A name that is too long is not looked up. -/
def checkName (name : List Char) : Except Fault Unit :=
  if longestName < Text.width name then .error .nameTooLong else .ok ()

/-! ## Looking -/

/-- What is at a location. -/
def entry? (t : Storage) (place : Location) : Option Entry :=
  if place.isEmpty then some .folder else t.entries.lookup place

/-- Whether there is a folder at a location. -/
def hasFolder (t : Storage) (place : Location) : Bool := t.entry? place == some .folder

/-- Takes the steps of a path from `place` on. Only a folder can be left, be it for itself. -/
def follow (t : Storage) : Location → List (List Char) → Except Fault Location
  | place, [] => .ok place
  | place, piece :: rest =>
    if !t.hasFolder place then .error .notFolder
    else if Path.isIdle piece then t.follow place rest
    else if piece == ['.', '.'] then t.follow place.dropLast rest
    else do
      checkName piece
      let next := place ++ [String.ofList piece]
      if (t.entry? next).isSome then t.follow next rest else throw .notFound

/-- Where a path starts. -/
def origin (t : Storage) (path : String) : Location := if Path.isAbsolute path then [] else t.here

/-- The location that a path leads to. -/
def locate (t : Storage) (path : String) : Except Fault Location := do
  checkPath path
  t.follow (t.origin path) (Path.pieces path)

/-- Whether a path leads to a folder. -/
def isFolder (t : Storage) (path : String) : Bool :=
  match t.locate path with
  | .ok place => t.hasFolder place
  | .error _ => false

/-- The content of the file that a path leads to. -/
def readBytes (t : Storage) (path : String) : Except Fault (List UInt8) := do
  let place ← t.locate path
  match t.entry? place with
  | some (.file content) => return content
  | _ => throw .isFolder

/-- The text of the file that a path leads to. -/
def readText (t : Storage) (path : String) : Except Fault String := do
  let content ← t.readBytes path
  match Text.decodeBytes? content with
  | some text => return text
  | none => throw .notText

/-- What is in a folder and the folders inside it: the names that lead there, and what it is. -/
def below (t : Storage) (place : Location) : List (Location × Entry) :=
  t.entries.filterMap fun entry =>
    if place.isPrefixOf entry.1 && place.length < entry.1.length then
      some (entry.1.drop place.length, entry.2)
    else none

/-! ## Changing -/

/-- Puts an entry at a location. -/
def put (t : Storage) (place : Location) (entry : Entry) : Storage :=
  { t with entries := t.entries.filter (·.1 != place) ++ [(place, entry)] }

/-- The last step of a path, and the location of the folder before it. -/
def lastStep (t : Storage) (path : String) (atRoot : Fault) :
    Except Fault (Location × List Char) := do
  checkPath path
  match (Path.pieces path).reverse.dropWhile List.isEmpty with
  | [] => throw atRoot
  | piece :: before =>
    let place ← t.follow (t.origin path) before.reverse
    if t.hasFolder place then return (place, piece) else throw .notFolder

/-- Whether a piece of a path is not a name. -/
def isDots (piece : List Char) : Bool := piece == ['.'] || piece == ['.', '.']

/-- Makes a folder in a folder that is there. -/
def createFolder (t : Storage) (path : String) : Except Fault Storage := do
  let (place, piece) ← t.lastStep path .alreadyThere
  if isDots piece then throw .alreadyThere
  checkName piece
  let inside := place ++ [String.ofList piece]
  if (t.entry? inside).isSome then throw .alreadyThere else return t.put inside .folder

/-- What remains of a fault in making a folder: none if the folder is there. -/
def unlessFolder (t : Storage) (path : String) (fault : Fault) : Outcome Fault Storage :=
  if t.isFolder path then { state := t } else { state := t, failure? := some fault }

/-- Makes a folder, after the folders around it, in so many rounds at most. -/
def createFoldersIn : (rounds : Nat) → Storage → String → Outcome Fault Storage
  | 0, t, _ => { state := t, failure? := some .notFound }
  | rounds + 1, t, path =>
    if path.isEmpty then { state := t }
    else
      match t.createFolder path with
      | .ok t => { state := t }
      | .error .notFound =>
        (createFoldersIn rounds t ((Path.parent? path).getD "")).andThen fun t =>
          match t.createFolder path with
          | .ok t => { state := t }
          | .error fault => t.unlessFolder path fault
      | .error fault => t.unlessFolder path fault

/-- Makes a folder and the folders around it, as far as they are not there. Folders that have been
made stay if a later one cannot be made. Every round takes a step off the path, so its pieces bound
their number. -/
def createFolders (t : Storage) (path : String) : Outcome Fault Storage :=
  createFoldersIn ((Path.pieces path).length + 1) t path

/-- Makes an empty file, or empties the one that is there. A path with a slash at its end leads to
no file. -/
def createFile (t : Storage) (path : String) : Except Fault (Location × Storage) := do
  let (place, piece) ← t.lastStep path .isFolder
  if path.toList.getLast? == some '/' || isDots piece then throw .isFolder
  checkName piece
  let inside := place ++ [String.ofList piece]
  if t.hasFolder inside then throw .isFolder else return (inside, t.put inside (.file []))

/-- Adds a text to the end of the file at a location. -/
def append (t : Storage) (place : Location) (data : String) : Storage :=
  match t.entry? place with
  | some (.file content) => t.put place (.file (content ++ Text.bytes data.toList))
  | _ => t

end Storage

end ApiClient
