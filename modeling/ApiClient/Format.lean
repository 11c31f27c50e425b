import ApiClient.Text.Trim

/-!
# Wire formats

* `Format`: the formats that responses come in;
* `Format.tag`: the name of a format in configurations, file names and request paths;
* `Format.ofTag?`: the format that a tag names, whatever its case and the white space around it.
-/

namespace ApiClient

/-- A format that responses can be read from. -/
inductive Format where
  | xml
  | json
  deriving DecidableEq, Repr, Inhabited

namespace Format

/-- Every format, in the order in which messages list them. -/
def all : List Format := [.xml, .json]

/-- The name of a format. -/
def tag : Format → String
  | .xml => "xml"
  | .json => "json"

/-- What a format adds to the end of a request path, after a full stop. -/
def extension (f : Format) : String := f.tag

/-- The name of the parser type for a format in the generated code. -/
def parserName : Format → String
  | .xml => "Xml"
  | .json => "Json"

/-- A text with its ASCII capitals made small. -/
def lowercase (s : String) : String := String.ofList (s.toList.map Char.toLower)

/-- The format whose tag is `s`, up to ASCII case and white space at the ends. -/
def ofTag? (s : String) : Option Format :=
  all.find? fun f => f.tag == lowercase (Text.trim s)

end Format

end ApiClient
