import ApiClient.Document
import ApiClient.Xml.Element

/-!
# Elements as documents

* `Element.isArray`, `isCompound`, `hasData`: the shapes of an element;
* `Element.body`: the document of an element that stands for itself;
* `Element.keyed`: the document of an element that is stored under its name;
* `Element.document`, `parse`: the document of a tree and of a text.

An element with `type="array"` is a list of its children. One with children is a map of its
attributes and its children, and any other a text, or a map if it has attributes.
-/

namespace ApiClient.Xml

namespace Element

/-- The attribute that says what an element stands for. -/
def typeKey : String := "type"

/-- The type of an element that is a list. -/
def arrayType : String := "array"

/-- The key of what is in an element beside its attributes. -/
def valueKey : String := "value"

/-- Whether an element is a list of its children. -/
def isArray (e : Element) : Bool := e.attributes.any fun a => a.1 == typeKey && a.2 == arrayType

/-- Whether an element is a map of its children. -/
def isCompound (e : Element) : Bool := !e.children.isEmpty && !e.isArray

/-- Whether an element has an attribute beside its type. -/
def hasData (e : Element) : Bool := e.attributes.any fun a => a.1 != typeKey

/-- Attributes as entries of a map. -/
def attributeEntries (attributes : List (String × String)) : List (String × Document) :=
  Entries.ofPairs (attributes.map fun a => (a.1, .text a.2))

/-- The attributes beside the type. -/
def dataAttributes (e : Element) : List (String × String) :=
  e.attributes.filter fun a => a.1 != typeKey

/-- The text of an element without the white space at its ends. -/
def content (e : Element) : Document := .text (Text.trim e.text)

mutual

/-- The document of an element that stands for itself, as the root and the members of a list do. -/
def body : Element → Document
  | ⟨name, attributes, children, text⟩ =>
    let e : Element := ⟨name, attributes, children, text⟩
    if e.isArray then .list (bodies children)
    else if e.isCompound then
      .map (addChildren children (attributeEntries e.dataAttributes))
    else if e.hasData then
      .map (Entries.insert valueKey e.content (attributeEntries e.dataAttributes))
    else e.content

/-- The documents of elements that stand for themselves. -/
def bodies : List Element → List Document
  | [] => []
  | e :: rest => body e :: bodies rest

/-- Stores elements under their names, one after the other. -/
def addChildren : List Element → List (String × Document) → List (String × Document)
  | [], entries => entries
  | ⟨name, attributes, children, text⟩ :: rest, entries =>
    addChildren rest
      (Entries.insert name (keyed ⟨name, attributes, children, text⟩) entries)

/-- The document of an element that is stored under its name. -/
def keyed : Element → Document
  | ⟨name, attributes, children, text⟩ =>
    let e : Element := ⟨name, attributes, children, text⟩
    if e.isCompound then .map (addChildren children (attributeEntries e.dataAttributes))
    else
      let value := if e.isArray then .list (bodies children) else e.content
      .map (Entries.insert valueKey value (attributeEntries attributes))

end

/-- The name of an element that reports a failure. -/
def errorName : String := "error"

/-- The key that a tree is stored under: its own name for a failure, and one name for all others. -/
def rootKey (e : Element) : String := if e.name == errorName then errorName else "response"

/-- The document of a tree. -/
def document (e : Element) : Document := .ofPairs [(e.rootKey, e.body)]

end Element

/-- The document of a text. -/
def parse (text : String) : Except Fault Document :=
  Element.document <$> Element.parse text.toList

end ApiClient.Xml
