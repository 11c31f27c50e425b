import ApiClient.Format
import ApiClient.Json.Value
import ApiClient.Xml.Conversion

/-!
# Texts of a format

* `Malformed`: a text that is not of its format;
* `Format.parse`: the document that a text of a format stands for.
-/

namespace ApiClient

/-- What is wrong with a text that is not of its format. -/
inductive Malformed where
  | xml (fault : Xml.Fault)
  | json (error : Json.Error)
  deriving DecidableEq, Repr, Inhabited

namespace Malformed

/-- The format that the text is not of. -/
def format : Malformed → Format
  | .xml _ => .xml
  | .json _ => .json

/-- The wording of what is wrong. -/
def message : Malformed → String
  | .xml fault => fault.message
  | .json error => error.message

end Malformed

/-- The document that a text stands for. -/
def Format.parse (format : Format) (text : String) : Except Malformed Document :=
  match format with
  | .xml => (Xml.parse text).mapError .xml
  | .json => (Json.parse text).mapError .json

end ApiClient
