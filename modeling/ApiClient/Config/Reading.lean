import ApiClient.Config
import ApiClient.Json.Record

/-!
# Drafts of configurations written in JSON

* `Config.Draft.shape`: the fields of a draft, all of which may be missing;
* `Config.Draft.parse`: the draft that a text describes;
* `Config.Draft.parseBytes`: the draft that the bytes of a file describe.
-/

namespace ApiClient.Config.Draft

open Json (Medium)

/-- What has been read of a draft. A field over null has been read as well. -/
structure Gathered where
  responseTypes? : Option (List String) := none
  moduleName? : Option (Option String) := none
  defaultFormat? : Option (Option String) := none
  defaultVersion? : Option (Option String) := none

/-- The draft that has been gathered. -/
def Gathered.finish (g : Gathered) : Draft where
  responseTypes := g.responseTypes?.getD []
  moduleName? := g.moduleName?.join
  defaultFormat? := g.defaultFormat?.join
  defaultVersion? := g.defaultVersion?.join

/-- The field `response_types`. -/
def responseTypesField (m : Medium) : Json.Field Gathered where
  name := "response_types"
  isSet g := g.responseTypes?.isSome
  value g s := do
    let (tags, s) ← Json.texts m s
    return ({ g with responseTypes? := some tags }, s)
  mayEnd := true

/-- The field `namespace`. -/
def moduleNameField (m : Medium) : Json.Field Gathered where
  name := "namespace"
  isSet g := g.moduleName?.isSome
  value g s := do
    let (name?, s) ← Json.optionalText m s
    return ({ g with moduleName? := some name? }, s)
  mayEnd := true

/-- The field `default_format`. -/
def defaultFormatField (m : Medium) : Json.Field Gathered where
  name := "default_format"
  isSet g := g.defaultFormat?.isSome
  value g s := do
    let (tag?, s) ← Json.optionalText m s
    return ({ g with defaultFormat? := some tag? }, s)
  mayEnd := true

/-- The field `default_version`. -/
def defaultVersionField (m : Medium) : Json.Field Gathered where
  name := "default_version"
  isSet g := g.defaultVersion?.isSome
  value g s := do
    let (version?, s) ← Json.optionalText m s
    return ({ g with defaultVersion? := some version? }, s)
  mayEnd := true

/-- A draft. It has no keys but its fields. -/
def shape (m : Medium) : Json.Shape Gathered Draft where
  title := "struct ConfigBuilder"
  size := " with 4 elements"
  fields := [responseTypesField m, moduleNameField m, defaultFormatField m, defaultVersionField m]
  unknown := .refused
  empty := {}
  finish g := .ok g.finish

/-- The draft that a JSON text describes. -/
def parse (text : String) : Except Json.Error Draft :=
  Json.read .text ((shape .text).reader .text) text.toList

/-- The draft that the bytes of a JSON file describe. -/
def parseBytes (content : List UInt8) : Except Json.Error Draft :=
  Json.read .stream ((shape .stream).reader .stream) (content.map Medium.unitOfByte)

end ApiClient.Config.Draft
