import ApiClient.Endpoint.Reading

/-!
# Sources of endpoints

* `Source`: a list of endpoints, a description in memory, or the contents of files;
* `Source.endpoints`: the endpoints of a source, or why its description is none.
-/

namespace ApiClient

/-- A file that has been read: its path and its contents. -/
structure LoadedFile where
  path : String
  contents : String
  deriving DecidableEq, Repr, Inhabited

/-- Something that endpoints come from. -/
inductive Source where
  | listed (endpoints : List Endpoint)
  | described (text : String)
  | loaded (files : List LoadedFile)
  deriving DecidableEq, Repr, Inhabited

namespace Source

/-- A text that is no description, with the name of where it comes from. -/
structure Fault where
  origin : String
  error : Json.Error
  deriving DecidableEq, Repr, Inhabited

/-- The wording of a fault. -/
def Fault.message (fault : Fault) : String :=
  "invalid endpoint description in " ++ fault.origin ++ ": " ++ fault.error.message

/-- The endpoints of a description that comes from `origin`. -/
def readDescription (origin text : String) : Except Fault (List Endpoint) :=
  (Endpoint.parseAll text).mapError fun error => { origin, error }

/-- The endpoints of a list of files, read in order. -/
def readFiles : List LoadedFile → Except Fault (List Endpoint)
  | [] => .ok []
  | file :: rest => do
    let endpoints ← readDescription file.path file.contents
    let more ← readFiles rest
    return endpoints ++ more

/-- The endpoints of a source, in order. -/
def read : Source → Except Fault (List Endpoint)
  | .listed endpoints => .ok endpoints
  | .described text => readDescription "buffer" text
  | .loaded files => readFiles files

/-- The endpoints of all sources, in order. -/
def readAll : List Source → Except Fault (List Endpoint)
  | [] => .ok []
  | source :: rest => do
    let endpoints ← source.read
    let more ← readAll rest
    return endpoints ++ more

end Source

end ApiClient
