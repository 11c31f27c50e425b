import ApiClient.Endpoint.Template
import ApiClient.Method
import ApiClient.Text.Identifier
import ApiClient.Text.Trim

/-!
# Endpoints

* `Endpoint`: one operation of an interface, with its method, path template and parameters;
* `Endpoint.placeholders`: the parameters that are part of its path;
* `firstRepeated?`: the entry of a list that is first met for the second time;
* `Endpoint.validate`: what the generated client relies on;
* `Endpoint.Fault`: the ways in which an endpoint can fail to provide it.
-/

namespace ApiClient

/-- A callable operation. -/
structure Endpoint where
  name : String
  method : Method
  /-- The path template. -/
  path : String
  /-- The declared parameters that are not part of the path, in order of declaration. -/
  params : List String
  deriving DecidableEq, Repr, Inhabited

namespace Endpoint

/-- What can be wrong with an endpoint. -/
inductive Fault where
  | badName (name : String)
  | reservedName (name : String)
  | emptyPath (name : String)
  | template (path : String) (fault : Template.Fault)
  | repeatedParameter (parameter name : String)
  deriving DecidableEq, Repr, Inhabited

/-- The wording of a fault. -/
def Fault.message : Fault → String
  | .badName name => "endpoint name '" ++ name ++ "' is not a valid identifier"
  | .reservedName name => "endpoint name '" ++ name ++ "' is reserved"
  | .emptyPath name => "endpoint '" ++ name ++ "' has an empty path"
  | .template path fault => fault.message path
  | .repeatedParameter parameter name =>
    "parameter '" ++ parameter ++ "' declared more than once for endpoint '" ++ name ++ "'"

/-- Names that the generated client uses for itself. -/
def reservedNames : List String := ["new", "call"]

/-- The placeholders of the path, in order. -/
def placeholders (e : Endpoint) : Except Fault (List String) :=
  (Template.placeholders e.path).mapError (.template e.path)

end Endpoint

/-- The entry of `names` that is first met for the second time. `seen` holds what came before. -/
def firstRepeatedFrom (seen : List String) : List String → Option String
  | [] => none
  | name :: rest =>
    if seen.contains name then some name else firstRepeatedFrom (name :: seen) rest

/-- The entry of `names` whose second occurrence comes first. -/
def firstRepeated? (names : List String) : Option String := firstRepeatedFrom [] names

namespace Endpoint

/-- Whether the path has nothing but slashes. -/
def hasEmptyPath (e : Endpoint) : Bool := (Text.stripSlashes e.path.toList).isEmpty

/-- Checks that the name can be the name of a function beside the client's own, that the path has
text and its braces match, and that no parameter is declared twice. -/
def validate (e : Endpoint) : Except Fault Unit := do
  if !Text.isIdentifier e.name then throw (.badName e.name)
  if reservedNames.contains e.name then throw (.reservedName e.name)
  if e.hasEmptyPath then throw (.emptyPath e.name)
  let placeholders ← e.placeholders
  match firstRepeated? (e.params ++ placeholders) with
  | some parameter => throw (.repeatedParameter parameter e.name)
  | none => return ()

end Endpoint

end ApiClient
