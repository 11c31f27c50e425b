import ApiClient.Endpoint
import ApiClient.Format
import ApiClient.Text.Percent
import ApiClient.Text.Split

/-!
# Requests

How a call of an endpoint becomes a request, and how a request is sent.

* `Request`: a method, a URL and perhaps a body;
* `Call`: where a call goes and the arguments that it passes;
* `Endpoint.request`: the request of a call, or why there is none;
* `Form.encode`, `Form.decode?`: arguments as they stand in a query string or a body;
* `Transport`, `Response`, `Request.send`: the exchange with a server.
-/

namespace ApiClient

/-- An argument of a call: a name and a value. -/
abbrev Argument := String × String

/-! ## Arguments in a query string or a body -/

namespace Form

/-- An argument as a pair of encoded components. -/
def encodePair (argument : Argument) : List Char :=
  Text.Percent.encode argument.1.toList ++ '=' :: Text.Percent.encode argument.2.toList

/-- The encoded pairs with ampersands between them. -/
def encode (arguments : List Argument) : List Char :=
  ['&'].intercalate (arguments.map encodePair)

/-- The argument that an encoded pair stands for. -/
def decodePair? (piece : List Char) : Option Argument := do
  let key ← Text.Percent.decode? (piece.takeWhile (· != '='))
  let value ← Text.Percent.decode? ((piece.dropWhile (· != '=')).drop 1)
  return (key, value)

/-- The arguments that a query string or a body stands for. -/
def decode? (s : List Char) : Option (List Argument) :=
  if s.isEmpty then some [] else (Text.split '&' s).mapM decodePair?

end Form

/-! ## Building a request -/

/-- A request, ready to be sent. -/
structure Request where
  method : Method
  url : String
  body? : Option String
  deriving DecidableEq, Repr, Inhabited

/-- A call of an endpoint. -/
structure Call where
  baseUrl : String
  version? : Option String
  format : Format
  /-- The arguments in the order in which the caller gives them. -/
  arguments : List Argument
  deriving DecidableEq, Repr, Inhabited

namespace Endpoint

/-- Why a call has no request. -/
inductive CallFault where
  | template (path : String) (fault : Template.Fault)
  | missing (parameter endpoint : String)
  | unknown (parameter endpoint : String)
  deriving DecidableEq, Repr, Inhabited

/-- The value that a placeholder takes: that of the first argument of its name, if it is not empty,
for an empty value would leave an empty path segment. -/
def pathValue? (arguments : List Argument) (name : String) : Option String :=
  (arguments.lookup name).filter (!·.isEmpty)

/-- The path that the pieces of a template give with `arguments`. -/
def fillPath (e : Endpoint) (arguments : List Argument) :
    List Segment → Except CallFault (List Char)
  | [] => .ok []
  | .literal content :: rest => (content.toList ++ ·) <$> e.fillPath arguments rest
  | .placeholder name :: rest =>
    match pathValue? arguments name with
    | some value => (Text.Percent.encode value.toList ++ ·) <$> e.fillPath arguments rest
    | none => .error (.missing name e.name)

/-- The arguments that are no part of the path. -/
def remaining (placeholders : List String) (arguments : List Argument) : List Argument :=
  arguments.filter fun argument => !placeholders.contains argument.1

/-- The address of a call up to the extension: base, version and path, with one slash before each.
-/
def address (call : Call) (path : List Char) : List Char :=
  let version :=
    match call.version? with
    | some version => '/' :: version.toList
    | none => []
  let path := Text.stripSlashes path
  Text.dropTailSlashes call.baseUrl.toList ++ version ++
    (if path.isEmpty then [] else '/' :: path) ++ '.' :: call.format.extension.toList

/-- The request of a call. Placeholders take the arguments of their names; what remains goes into
the body if the method has one and into the query string otherwise, and has to be declared. -/
def request (e : Endpoint) (call : Call) : Except CallFault Request := do
  let pieces ← (Template.segments e.path).mapError (.template e.path)
  let path ← e.fillPath call.arguments pieces
  let arguments := remaining (pieces.filterMap Segment.name?) call.arguments
  match arguments.find? fun argument => !e.params.contains argument.1 with
  | some argument => throw (.unknown argument.1 e.name)
  | none =>
    let form := Form.encode arguments
    let url := address call path
    if e.method.hasBody then
      return { method := e.method, url := String.ofList url, body? := some (String.ofList form) }
    else
      let query := if form.isEmpty then [] else '?' :: form
      return { method := e.method, url := String.ofList (url ++ query), body? := none }

end Endpoint

/-! ## Sending -/

/-- What a server answers. -/
structure Response where
  status : Nat
  body : String
  deriving DecidableEq, Repr, Inhabited

/-- Something that carries requests to a server and brings back the answer, or the text of an error
of its own. -/
abbrev Transport := Request → Except String Response

/-- Sends a request. Errors of the transport come back unchanged. -/
def Request.send (r : Request) (transport : Transport) : Except String Response := transport r

end ApiClient
