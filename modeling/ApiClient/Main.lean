import ApiClient.CommandLine

/-!
# The program

* `Disk.load`: the part of the disk that a run can look at, as a storage;
* `Disk.save`: what a run has changed, put back on the disk;
* `main`: a run on the arguments of the process.
-/

namespace ApiClient.Disk

/-- The path of a location on the disk. -/
def pathOf (place : Location) : String := "/" ++ place.toPath

/-- What is at a location on the disk. -/
def look (place : Location) : IO (Option Entry) := do
  let path := (← IO.currentDir) / pathOf place
  if !(← path.pathExists) then return none
  else if ← path.isDir then return some .folder
  else
    let content ← IO.FS.readBinFile path
    return some (.file content.toList)

/-- Adds everything in a folder of the disk. -/
partial def addBelow (t : Storage) (place : Location) : IO Storage := do
  let path := (← IO.currentDir) / pathOf place
  let mut t := t
  for found in ← path.readDir do
    let inside := place ++ [found.fileName]
    match ← look inside with
    | none => pure ()
    | some (.file content) => t := t.put inside (.file content)
    | some .folder => t ← addBelow (t.put inside .folder) inside
  return t

/-- Adds what the steps of a path lead through, and everything where they end. Steps behind one
that leads nowhere are taken as well, since a run may make a folder there. -/
def addAlong (t : Storage) (place : Location) : List (List Char) → IO Storage
  | [] => if t.hasFolder place then addBelow t place else return t
  | piece :: rest => do
    if Path.isIdle piece then addAlong t place rest
    else if piece == ['.', '.'] then addAlong t place.dropLast rest
    else
      let next := place ++ [String.ofList piece]
      match ← look next with
      | none => addAlong t next rest
      | some entry => addAlong (if (t.entry? next).isSome then t else t.put next entry) next rest

/-- The paths that options make a run look at. -/
def pathsOf (o : CommandLine.Options) : List String :=
  o.config?.toList ++ o.inputs.map (fun glob => ((Glob.split glob).map (·.1)).getD ".") ++
    [o.outputRoot?.getD CommandLine.defaultOutputRoot]

/-- The part of the disk that a run on some arguments can look at. -/
def load (arguments : List String) : IO Storage := do
  let path := (← IO.currentDir).toString
  let here := (Path.pieces path).filterMap fun piece =>
    if piece.isEmpty then none else some (String.ofList piece)
  let folders := (List.range here.length).map fun n => here.take (n + 1)
  let mut t : Storage := { entries := folders.map fun place => (place, .folder), here }
  match CommandLine.Options.parse arguments with
  | .error _ => return t
  | .ok options =>
    for path in pathsOf options do
      t ← addAlong t (t.origin path) (Path.pieces path)
    return t

/-- Puts on the disk what is in `after` but was not the same before. -/
def save (before after : Storage) : IO Unit := do
  for (place, entry) in after.entries do
    if before.entry? place != some entry then
      match entry with
      | .folder => IO.FS.createDirAll (pathOf place)
      | .file content => IO.FS.writeBinFile (pathOf place) ⟨content.toArray⟩

end ApiClient.Disk

/-- Runs on the arguments of the process. -/
def main (arguments : List String) : IO UInt32 := do
  let before ← ApiClient.Disk.load arguments
  let report := ApiClient.CommandLine.run before arguments
  ApiClient.Disk.save before report.storage
  IO.print report.out
  IO.eprint report.err
  return report.exitCode.toUInt32
