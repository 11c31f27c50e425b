/-!
# Request methods

* `Method`: the HTTP methods that an endpoint can use;
* `Method.name`, `Method.variant`: its name in requests and in the generated code;
* `Method.ofName?`, `Method.ofText?`: the method of exactly that name, or of that name in any case;
* `Method.hasBody`: the methods that send their parameters in a body.
-/

namespace ApiClient

/-- The HTTP method of an endpoint. -/
inductive Method where
  | get
  | post
  | put
  | patch
  | delete
  | head
  | options
  deriving DecidableEq, Repr, Inhabited

namespace Method

/-- Every method, in the order in which messages list them. -/
def all : List Method := [.get, .post, .put, .patch, .delete, .head, .options]

/-- The name of a method in a request. -/
def name : Method → String
  | .get => "GET"
  | .post => "POST"
  | .put => "PUT"
  | .patch => "PATCH"
  | .delete => "DELETE"
  | .head => "HEAD"
  | .options => "OPTIONS"

/-- The name of a method in the generated code. -/
def variant : Method → String
  | .get => "Get"
  | .post => "Post"
  | .put => "Put"
  | .patch => "Patch"
  | .delete => "Delete"
  | .head => "Head"
  | .options => "Options"

/-- Whether parameters that are not part of the path travel in a form-encoded body, not in the
query string. -/
def hasBody : Method → Bool
  | .post | .put | .patch => true
  | _ => false

/-- The method with exactly this name. -/
def ofName? (s : String) : Option Method := all.find? (·.name == s)

/-- The method with this name, up to ASCII case. -/
def ofText? (s : String) : Option Method := ofName? (String.ofList (s.toList.map Char.toUpper))

theorem ofName?_name (m : Method) : ofName? m.name = some m := by cases m <;> decide

end Method

end ApiClient
