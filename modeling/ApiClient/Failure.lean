import ApiClient.Execution
import ApiClient.Format.Reading
import ApiClient.Glob
import ApiClient.Request
import ApiClient.Sink.Buffer
import ApiClient.Sink.Folder

/-!
# Failures

Everything that can go wrong, under one type.

* `Failure`: a fault of any part of the library;
* `Failure.Kind`, `Failure.kind`: what a caller can tell failures apart by;
* `Failure.messages`, `Failure.message`: the wording of a failure and its causes.
-/

namespace ApiClient

/-- Something that went wrong. -/
inductive Failure where
  | config (fault : Config.Fault)
  | unknownMethod (text : String)
  | endpoint (fault : Endpoint.Fault)
  | generation (fault : Generation.Fault)
  | glob (fault : Glob.Fault)
  | storage (fault : Storage.Fault)
  | malformed (fault : Malformed)
  | call (fault : Endpoint.CallFault)
  /-- An error of the transport, in its own words. -/
  | transport (text : String)
  | json (error : Json.Error)
  | noInputs
  | noOutputs
  | fileBuffer (fault : FileBuffer.Fault)
  | folder (fault : Folder.Fault)
  /-- A configuration file that cannot be read. A folder can be opened and fails only then. -/
  | configFile (path : String) (fault : Storage.Fault)
  /-- A configuration file that is no configuration. -/
  | configText (path : String) (error : Json.Error)
  deriving DecidableEq, Repr, Inhabited

namespace Failure

/-- What a caller can tell failures apart by. -/
inductive Kind where
  | config
  | malformedInput
  | unknownParameter
  | missingParameter
  | transport
  | io
  | json
  | other
  deriving DecidableEq, Repr, Inhabited

/-- The kind of a failure. -/
def kind : Failure → Kind
  | .config _ | .unknownMethod _ | .endpoint _ | .generation _ => .config
  | .glob (.unreadable _) | .storage _ => .io
  | .glob _ => .config
  | .malformed _ => .malformedInput
  | .call (.template _ _) => .config
  | .call (.missing _ _) => .missingParameter
  | .call (.unknown _ _) => .unknownParameter
  | .transport _ => .transport
  | .json _ => .json
  | .noInputs | .noOutputs | .fileBuffer _ | .folder _ => .other
  | .configFile _ _ | .configText _ _ => .other

/-- The wording of what is wrong with a configuration or a description. -/
def inConfig (text : String) : String := "config error: " ++ text

/-- The wording of a failure, and behind it that of its cause, if it has one. -/
def messages : Failure → List String
  | .config fault => [inConfig fault.message]
  | .unknownMethod text => [inConfig ("unknown http method '" ++ text ++ "'")]
  | .endpoint fault => [inConfig fault.message]
  | .generation fault => [inConfig fault.message]
  | .glob (.unreadable fault) => [fault.message]
  | .glob fault => [inConfig fault.message]
  | .storage fault => [fault.message]
  | .malformed fault =>
    ["malformed " ++ fault.format.tag ++ " input: " ++ fault.message]
  | .call (.template path fault) => [inConfig (fault.message path)]
  | .call (.missing parameter name) =>
    ["missing path parameter '" ++ parameter ++ "' for endpoint '" ++ name ++ "'"]
  | .call (.unknown parameter name) =>
    ["unknown parameter '" ++ parameter ++ "' for endpoint '" ++ name ++ "'"]
  | .transport text => ["transport error: " ++ text]
  | .json error => [error.message]
  | .noInputs => ["no 'inputs' have been specified"]
  | .noOutputs => ["no 'outputs' have been specified"]
  | .fileBuffer fault => [fault.message]
  | .folder fault => fault.messages
  | .configFile path .isFolder => ["parse config " ++ path, Storage.Fault.isFolder.message]
  | .configFile path fault => ["read config " ++ path, fault.message]
  | .configText path error => ["parse config " ++ path, error.message]

/-- The wording of a failure and its cause in one line. -/
def message (f : Failure) : String := ": ".intercalate f.messages

/-- The failure of an execution. -/
def ofExecution {ε : Type} (ofSink : ε → Failure) : Execution.Fault ε → Failure
  | .noInputs => .noInputs
  | .noOutputs => .noOutputs
  | .generation fault => .generation fault
  | .sink fault => ofSink fault

end Failure

end ApiClient
