import ApiClient.Endpoint
import ApiClient.Json.Record

/-!
# Endpoints written in JSON

* `Method.reader`: a method, as a string or as the only key of an object;
* `Endpoint.shape`, `Endpoint.parse`: an endpoint;
* `Endpoint.parseAll`: a description, the list of endpoints under the key `endpoints`.
-/

namespace ApiClient

namespace Method

/-- The method of exactly this name. -/
def ofVariant (name : String) (s : List Char) : Except Json.Stop (Method × List Char) :=
  match ofName? name with
  | some method => .ok (method, s)
  | none => .error (.here (.unknownVariant name (all.map Method.name)) s .before)

/-- The name of a method as a key. -/
def variantKey : Json.Reader Method := fun s =>
  match Json.skipBlank s with
  | [] => Json.stop .endInObject []
  | c :: s =>
    if c = '"' then do
      let (name, s) ← Json.string .text s
      ofVariant name s
    else if c = '\x7d' then Json.stop .noValue (c :: s)
    else Json.stop .keyNotString (c :: s)

/-- Null, which is all that a method can carry. -/
def nothing (s : List Char) : Except Json.Stop (List Char) :=
  match Json.skipBlank s with
  | 'n' :: s => Json.word ['u', 'l', 'l'] s
  | s => .error (Json.wrongType .text "unit" s)

/-- A method: its name, or an object with its name as the only key, over null. -/
def reader : Json.Reader Method := fun s =>
  match Json.skipBlank s with
  | [] => Json.stop .endInValue []
  | c :: s =>
    if c = '\x7b' then do
      let (method, s) ← variantKey s
      let s ← Json.colon s
      let s ← nothing s
      match Json.skipBlank s with
      | [] => throw (.here .endInObject [] .before)
      | c :: s =>
        if c = '\x7d' then return (method, s) else throw (.here .noValue (c :: s) .before)
    else if c = '"' then do
      let (name, s) ← Json.string .text s
      ofVariant name s
    else Json.stop .noValue (c :: s)

end Method

namespace Endpoint

/-- What has been read of an endpoint. -/
structure Gathered where
  name? : Option String := none
  method? : Option Method := none
  path? : Option String := none
  params? : Option (List String) := none

namespace Gathered

/-- The endpoint that has been gathered. Only the parameters may be missing. -/
def finish (g : Gathered) : Except Json.Fault Endpoint :=
  match g.name?, g.method?, g.path? with
  | none, _, _ => .error (.missingField "name")
  | some _, none, _ => .error (.missingField "method")
  | some _, some _, none => .error (.missingField "path")
  | some name, some method, some path =>
    .ok { name, method, path, params := g.params?.getD [] }

end Gathered

/-- The field `name`. -/
def nameField : Json.Field Gathered where
  name := "name"
  isSet g := g.name?.isSome
  value g s := do
    let (name, s) ← Json.text .text s
    return ({ g with name? := some name }, s)
  mayEnd := false

/-- The field `method`. -/
def methodField : Json.Field Gathered where
  name := "method"
  isSet g := g.method?.isSome
  value g s := do
    let (method, s) ← Method.reader s
    return ({ g with method? := some method }, s)
  mayEnd := false

/-- The field `path`. -/
def pathField : Json.Field Gathered where
  name := "path"
  isSet g := g.path?.isSome
  value g s := do
    let (path, s) ← Json.text .text s
    return ({ g with path? := some path }, s)
  mayEnd := false

/-- The field `params`. -/
def paramsField : Json.Field Gathered where
  name := "params"
  isSet g := g.params?.isSome
  value g s := do
    let (params, s) ← Json.texts .text s
    return ({ g with params? := some params }, s)
  mayEnd := true

/-- An endpoint. Keys that it does not know are passed over. -/
def shape : Json.Shape Gathered Endpoint where
  title := "struct Endpoint"
  size := " with 4 elements"
  fields := [nameField, methodField, pathField, paramsField]
  unknown := .skipped
  empty := {}
  finish := Gathered.finish

/-- The endpoint that a JSON text describes. -/
def parse (text : String) : Except Json.Error Endpoint :=
  Json.read .text (shape.reader .text) text.toList

/-! ## Descriptions -/

/-- The field `endpoints` of a description. -/
def endpointsField : Json.Field (Option (List Endpoint)) where
  name := "endpoints"
  isSet found := found.isSome
  value _ s := do
    let (endpoints, s) ← Json.list .text (shape.reader .text) s
    return (some endpoints, s)
  mayEnd := false

/-- A description. It has no keys but its one field. -/
def descriptionShape : Json.Shape (Option (List Endpoint)) (List Endpoint) where
  title := "struct Description"
  size := " with 1 element"
  fields := [endpointsField]
  unknown := .refused
  empty := none
  finish
    | some endpoints => .ok endpoints
    | none => .error (.missingField "endpoints")

/-- The endpoints that a description in JSON lists. -/
def parseAll (text : String) : Except Json.Error (List Endpoint) :=
  Json.read .text (descriptionShape.reader .text) text.toList

end Endpoint

end ApiClient
