import ApiClient.Generation.Client
import ApiClient.Generation.ParserModule
import ApiClient.Source

/-!
# Generation

* `Generation.Fault`: why nothing can be generated;
* `Generation.prepare`: reading and checking the endpoints of all sources;
* `Generation`: the files that are still to be written;
* `Generation.next?`, `remaining`, `files`: the next file, the number of files, all of them.

Every endpoint is checked before the first file is written.
-/

namespace ApiClient

/-- A file to generate. -/
inductive Part where
  | client
  | parser (format : Format)
  deriving DecidableEq, Repr, Inhabited

/-- What is to be generated. -/
structure Generation where
  config : Config
  endpoints : List Endpoint
  /-- The files to write from here on. -/
  parts : List Part
  deriving DecidableEq, Repr, Inhabited

namespace Generation

/-- Why nothing can be generated. -/
inductive Fault where
  | source (fault : Source.Fault)
  | endpoint (fault : Endpoint.Fault)
  | repeated (name : String)
  deriving DecidableEq, Repr, Inhabited

/-- The wording of a fault. -/
def Fault.message : Fault → String
  | .source fault => fault.message
  | .endpoint fault => fault.message
  | .repeated name => "endpoint '" ++ name ++ "' is defined more than once"

/-- Checks endpoints one after the other. -/
def validateAll : List Endpoint → Except Endpoint.Fault Unit
  | [] => .ok ()
  | e :: rest => do
    e.validate
    validateAll rest

/-- The parts of a client: its own file and one for every parser. -/
def partsOf (config : Config) : List Part := .client :: config.responseTypes.map .parser

/-- Reads every source and checks the endpoints, first one by one and then their names against each
other. -/
def prepare (config : Config) (sources : List Source) : Except Fault Generation := do
  let endpoints ← (Source.readAll sources).mapError .source
  (validateAll endpoints).mapError .endpoint
  match firstRepeated? (endpoints.map Endpoint.name) with
  | some name => throw (.repeated name)
  | none => return { config, endpoints, parts := partsOf config }

/-- The file of a part. -/
def file (g : Generation) : Part → SourceFile
  | .client => Client.file g.config g.endpoints
  | .parser format => ParserModule.file g.config format

/-- The next file, and what is to be generated behind it. -/
def next? (g : Generation) : Option (SourceFile × Generation) :=
  match g.parts with
  | [] => none
  | part :: parts => some (g.file part, { g with parts })

/-- The number of files that are still to be written. -/
def remaining (g : Generation) : Nat := g.parts.length

/-- All files that are still to be written, in order. -/
def files (g : Generation) : List SourceFile := g.parts.map g.file

end Generation

end ApiClient
