import ApiClient.Sink
import ApiClient.Storage

/-!
# Files in a folder

* `Folder`: a folder that files are written to, and the file that is being written;
* `Folder.claim`: a folder with nothing in it, made if it is not there;
* `Folder.sink`: a sink that makes a file in the folder for every file that begins.
-/

namespace ApiClient

/-- A folder that files are written to. -/
structure Folder where
  /-- The path of the folder. -/
  root : String
  /-- The file that is being written. -/
  current? : Option Location := none
  deriving DecidableEq, Repr, Inhabited

namespace Folder

/-- What can be wrong with a folder or a file in it. -/
inductive Fault where
  | root (path : String) (fault : Storage.Fault)
  | notEmpty
  | noFile
  /-- A folder around a file cannot be made. -/
  | folder (fault : Storage.Fault)
  | file (path : String) (fault : Storage.Fault)
  deriving DecidableEq, Repr, Inhabited

/-- The wording of a fault and that of its cause, if it has one. -/
def Fault.messages : Fault → List String
  | .root path fault => ["create output root " ++ path, fault.message]
  | .notEmpty => ["specified 'output_root' must be empty"]
  | .noFile => ["cannot write to a FileSet before begin_file"]
  | .folder fault => [fault.message]
  | .file path fault => ["create output file " ++ path, fault.message]

/-- Takes a folder for generated files. There must be nothing in it that could be mistaken for one.
Folders that were made on the way stay in any case. -/
def claim (t : Storage) (root : String) : Except Fault Folder × Storage :=
  let made := (t.createFolders root).mapFailure (Fault.root root)
  match made.failure?, made.state.locate root with
  | some fault, _ => (.error fault, made.state)
  | none, .error fault => (.error (.root root fault), made.state)
  | none, .ok place =>
    if (made.state.below place).isEmpty then (.ok { root }, made.state)
    else (.error .notEmpty, made.state)

/-- Makes the folders around a path. -/
def createAround (t : Storage) (path : String) : Outcome Storage.Fault Storage :=
  match Path.parent? path with
  | some parent => t.createFolders parent
  | none => { state := t }

/-- Makes the file of a name, and the folders around it. -/
def createFile (name : String) (f : Folder) (t : Storage) : Outcome Fault (Folder × Storage) :=
  let path := Path.join f.root name
  (((createAround t path).mapFailure Fault.folder).map (f, ·)).andThen fun s =>
    match s.2.createFile path with
    | .error fault => { state := s, failure? := some (.file path fault) }
    | .ok (place, t) => { state := ({ s.1 with current? := some place }, t) }

/-- Writes to the file that was made last. -/
def write (data : String) (f : Folder) (t : Storage) : Outcome Fault (Folder × Storage) :=
  match f.current? with
  | none => { state := (f, t), failure? := some .noFile }
  | some place => { state := (f, t.append place data) }

/-- Writes every file into the folder. -/
def sink : Sink Fault (Folder × Storage) where
  beginFile name s := createFile name s.1 s.2
  write data s := write data s.1 s.2
  newline s := write "\n" s.1 s.2

end Folder

end ApiClient
