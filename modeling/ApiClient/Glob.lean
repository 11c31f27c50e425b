import ApiClient.Glob.Matching
import ApiClient.Source
import ApiClient.Storage

/-!
# Globs

A glob names files by a pattern for their paths.

* `Glob.split`: the literal text in front of a glob and the rest;
* `Glob.select`: the files among some entries that a pattern accepts, in the order of their paths;
* `Glob.walk`: the files below a folder that a glob names;
* `Glob.load`, `Glob.loadBelow`, `loadFiles`: the contents of these files, or why there are none.
-/

namespace ApiClient

/-- The order of locations: step by step, a step by its bytes, and the outer one first. -/
def Location.le : Location → Location → Bool
  | [], _ => true
  | _ :: _, [] => false
  | a :: as, b :: bs => if a = b then Location.le as bs else decide (a < b)

/-- The path that leads to a location from the folder that it starts in. -/
def Location.toPath (place : Location) : String := "/".intercalate place

namespace Glob

/-! ## Faults -/

/-- Why a glob names no files. -/
inductive Fault where
  | badPattern (glob pattern : String) (fault : Pattern.Fault)
  /-- The folder of the glob cannot be walked. -/
  | unwalkable (glob root : String) (fault : Storage.Fault)
  | notFile (path : String)
  | unreadable (fault : Storage.Fault)
  deriving DecidableEq, Repr, Inhabited

/-- The wording of a fault. -/
def Fault.message : Fault → String
  | .badPattern glob pattern fault =>
    "glob '" ++ glob ++ "': error parsing glob '" ++ pattern ++ "': " ++ fault.message
  | .unwalkable glob root fault =>
    "glob '" ++ glob ++ "': IO error for operation on " ++ root ++ ": " ++ fault.message
  | .notFile path => "'" ++ path ++ "' is not a file"
  | .unreadable fault => fault.message

/-! ## Walking -/

/-- The characters that are not literal in a glob. -/
def isSpecial (c : Char) : Bool := ['?', '*', '\x7b', '\x7d', '[', ']', '!'].contains c

/-- Splits a glob before its first special character, unless it begins with one or is empty. -/
def split (glob : String) : Option (String × String) :=
  let literal := glob.toList.takeWhile (!isSpecial ·)
  if literal.isEmpty then none
  else some (String.ofList literal, String.ofList (glob.toList.dropWhile (!isSpecial ·)))

/-- The path to a location below `root`. -/
def pathBelow (root : String) (place : Location) : String :=
  if place.isEmpty then root else Path.join root (Location.toPath place)

/-- The files among `entries` whose path from `root` on is accepted, in the order of locations. -/
def select (accept : String → Bool) (root : String) (entries : List (Location × Entry)) :
    List Location :=
  let chosen := entries.filter fun entry =>
    entry.2 != .folder && accept (pathBelow root entry.1)
  (chosen.map (·.1)).mergeSort Location.le

/-- Everything that walking a location meets, below it or, if it is no folder, at it. -/
def met (t : Storage) (place : Location) : List (Location × Entry) :=
  match t.entry? place with
  | some (.file content) => [([], .file content)]
  | _ => t.below place

/-- The files that a glob names below `root`. -/
def walk (t : Storage) (root glob : String) : Except Fault (List Location) := do
  let pattern := Path.join root glob
  let pieces ← (Pattern.compile pattern).mapError (.badPattern glob pattern)
  let place ← (t.locate root).mapError (.unwalkable glob root)
  return select (accepts pieces) root (met t place)

end Glob

/-! ## Loading -/

/-- The contents of files, whose paths start from `root`. -/
def loadFiles (t : Storage) (root : String) : List String → Except Storage.Fault (List LoadedFile)
  | [] => .ok []
  | path :: rest => do
    let path := Path.join root path
    let contents ← t.readText path
    let more ← loadFiles t root rest
    return { path, contents } :: more

namespace Glob

/-- The contents of the files that a glob names below `root`. -/
def walkAndLoad (t : Storage) (root glob : String) : Except Fault (List LoadedFile) := do
  let places ← walk t root glob
  (loadFiles t root (places.map Location.toPath)).mapError .unreadable

/-- The contents of the files that a glob names below `root`. Without a glob these are all files in
the folder `root`, or the file `root` itself. -/
def loadBelow (t : Storage) (root glob : String) : Except Fault (List LoadedFile) :=
  if !glob.isEmpty then walkAndLoad t root glob
  else if t.isFolder root then walkAndLoad t root "**/*"
  else
    match Path.parent? root, Path.fileName? root with
    | some parent, some name => (loadFiles t parent [name]).mapError .unreadable
    | _, _ => .error (.notFile root)

/-- The contents of the files that a glob names. -/
def load (t : Storage) (glob : String) : Except Fault (List LoadedFile) :=
  let here := "/" ++ Location.toPath t.here
  match split glob with
  | some (literal, rest) => loadBelow t (Path.join here literal) rest
  | none => loadBelow t here glob

end Glob

end ApiClient
