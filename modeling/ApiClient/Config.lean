import ApiClient.Format
import ApiClient.Text.Identifier

/-!
# Configurations

* `Config`: what is generated, once it is known to make sense;
* `Config.Draft`: a configuration as it is written down, with formats by their tags;
* `Config.Draft.merge`: one draft over another;
* `Config.Draft.build`: the configuration that a draft describes, or its first fault.
-/

namespace ApiClient

/-- A configuration of the generated code. -/
structure Config where
  /-- The formats to write a parser for, in order. -/
  responseTypes : List Format
  /-- The module that wraps every declaration of a file, if there is one. -/
  moduleName? : Option String
  /-- The format that the client asks for. -/
  defaultFormat : Format
  /-- The first segment of every request path, if there is one. -/
  defaultVersion? : Option String
  deriving DecidableEq, Repr, Inhabited

namespace Config

/-- A configuration that nobody has looked at yet. -/
structure Draft where
  responseTypes : List String := []
  moduleName? : Option String := none
  defaultFormat? : Option String := none
  defaultVersion? : Option String := none
  deriving DecidableEq, Repr, Inhabited

/-- What can be wrong with a draft. -/
inductive Fault where
  | noResponseTypes
  | unknownFormat (tag : String)
  | defaultNotListed (format : Format) (responseTypes : List Format)
  | badNamespace (name : String)
  | badVersion (version : String)
  deriving DecidableEq, Repr, Inhabited

/-- The tags of `formats` with commas between them. -/
def tagList (formats : List Format) : String := ", ".intercalate (formats.map Format.tag)

/-- The wording of a fault. -/
def Fault.message : Fault → String
  | .noResponseTypes => "at least one response type is required"
  | .unknownFormat tag =>
    "no response parser for format '" ++ tag ++ "' (supported: " ++ tagList Format.all ++ ")"
  | .defaultNotListed format responseTypes =>
    "default format '" ++ format.tag ++ "' is not one of the response types (" ++
      tagList responseTypes ++ ")"
  | .badNamespace name => "namespace '" ++ name ++ "' is not a valid identifier"
  | .badVersion version =>
    "default version '" ++ version ++ "' must be a single non-empty path segment"

/-- The format of a tag. -/
def readFormat (tag : String) : Except Fault Format :=
  match Format.ofTag? tag with
  | some format => .ok format
  | none => .error (.unknownFormat tag)

/-- A version is one path segment: not empty and without a slash. -/
def isVersion (version : String) : Bool := !version.isEmpty && !version.toList.contains '/'

namespace Draft

/-- Every field that is set in `overrides` replaces that of `base`. A list of response types is set
if it has an entry. -/
def merge (base overrides : Draft) : Draft where
  responseTypes :=
    if overrides.responseTypes.isEmpty then base.responseTypes else overrides.responseTypes
  moduleName? := overrides.moduleName?.or base.moduleName?
  defaultFormat? := overrides.defaultFormat?.or base.defaultFormat?
  defaultVersion? := overrides.defaultVersion?.or base.defaultVersion?

/-- The formats of a list of tags, each at its first place. -/
def readFormats (found : List Format) : List String → Except Fault (List Format)
  | [] => .ok found
  | tag :: rest => do
    let format ← readFormat tag
    readFormats (if found.contains format then found else found ++ [format]) rest

/-- The format that the client asks for: the one that is named, which has to be listed, or else the
first of the list. -/
def chooseDefault (responseTypes : List Format) (first : Format) :
    Option String → Except Fault Format
  | none => .ok first
  | some tag => do
    let format ← readFormat tag
    if responseTypes.contains format then return format
    else throw (.defaultNotListed format responseTypes)

/-- The configuration that a draft describes. The faults are looked for in the order: no response
type, a tag that names no format, a default format outside the list, a namespace that is no
identifier, a version that is no path segment. -/
def build (draft : Draft) : Except Fault Config := do
  let responseTypes ← readFormats [] draft.responseTypes
  match responseTypes with
  | [] => throw .noResponseTypes
  | first :: _ =>
    let defaultFormat ← chooseDefault responseTypes first draft.defaultFormat?
    match draft.moduleName? with
    | some name => if !Text.isIdentifier name then throw (.badNamespace name)
    | none => pure ()
    match draft.defaultVersion? with
    | some version => if !isVersion version then throw (.badVersion version)
    | none => pure ()
    return {
      responseTypes
      moduleName? := draft.moduleName?
      defaultFormat
      defaultVersion? := draft.defaultVersion? }

end Draft

end Config

end ApiClient
