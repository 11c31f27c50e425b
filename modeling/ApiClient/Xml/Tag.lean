import ApiClient.Xml.Reference

/-!
# Tags

The content of a start tag is a name and attributes.

* `isBlank`: white space inside a tag;
* `Tag`: the content of a start tag, cut behind its name;
* `Tag.Fault`: what can be wrong with the attributes;
* `Tag.attributes`: the attributes with their values, in order.
-/

namespace ApiClient.Xml

/-- White space inside a tag. -/
def isBlank (c : Char) : Bool := c == ' ' || c == '\t' || c == '\r' || c == '\n'

/-- The content of a start tag. -/
structure Tag where
  /-- What stands before the first white space. -/
  name : List Char
  /-- Everything behind the name. -/
  rest : List Char
  deriving DecidableEq, Repr, Inhabited

namespace Tag

/-- Cuts the content of a tag behind its name. -/
def ofContent (content : List Char) : Tag where
  name := content.takeWhile (!isBlank ·)
  rest := content.dropWhile (!isBlank ·)

/-- What can be wrong with the attributes of a tag. Positions are offsets into its content. -/
inductive Fault where
  | noEquals (position : Nat)
  | repeated (position former : Nat)
  | noValue (position : Nat)
  | noQuote (position : Nat)
  | unclosed (position : Nat) (quote : Char)
  | value (fault : Reference.Fault)
  deriving DecidableEq, Repr, Inhabited

/-- The wording of a position. -/
def positionText (position : Nat) : String := "position " ++ toString position ++ ": "

/-- The wording of a fault. -/
def Fault.message : Fault → String
  | .noEquals position =>
    positionText position ++ "attribute key must be directly followed by `=` or space"
  | .repeated position former =>
    positionText position ++ "duplicated attribute, previous declaration at position " ++
      toString former
  | .noValue position => positionText position ++ "`=` must be followed by an attribute value"
  | .noQuote position => positionText position ++ "attribute value must be enclosed in `\"` or `'`"
  | .unclosed position quote =>
    positionText position ++ "missing closing quote `" ++ quote.toString ++ "` in attribute value"
  | .value fault => fault.message

/-- The text without the white space at its beginning. -/
def skipBlank (s : List Char) : List Char := s.dropWhile isBlank

/-- An attribute as it is written: its key, its value with references, and what follows. -/
structure Attribute where
  position : Nat
  key : List Char
  value : List Char
  rest : List Char
  deriving DecidableEq, Repr, Inhabited

/-- Reads the value of an attribute from behind the equals sign, in a content of `size` bytes. -/
def readValue (size : Nat) (s : List Char) : Except Fault (List Char × List Char) :=
  match skipBlank s with
  | [] => .error (.noValue size)
  | c :: s =>
    if c = '"' ∨ c = '\'' then
      match s.dropWhile (· != c) with
      | [] => .error (.unclosed size c)
      | _ :: rest => .ok (s.takeWhile (· != c), rest)
    else .error (.noQuote (size - Text.width (c :: s)))

/-- Reads the attribute that begins with `c` and goes on with `s`, in a content of `size` bytes.
`seen` are the keys before it with their positions. -/
def readAttribute (size : Nat) (seen : List (List Char × Nat)) (c : Char) (s : List Char) :
    Except Fault Attribute := do
  let position := size - Text.width (c :: s)
  let inKey : Char → Bool := fun d => d != '=' && !isBlank d
  let key := c :: s.takeWhile inKey
  match skipBlank (s.dropWhile inKey) with
  | [] => throw (.noEquals size)
  | d :: s =>
    if d != '=' then throw (.noEquals (size - Text.width (d :: s)))
    match seen.lookup key with
    | some former => throw (.repeated position former)
    | none =>
      let (value, rest) ← readValue size s
      return { position, key, value, rest }

/-- Reads attributes one by one, in so many rounds at most, and replaces the references in each
value before the next one is read. An attribute takes a byte at least, so the length of the text
bounds the number of rounds. -/
def attributesIn (size : Nat) : (rounds : Nat) → (seen : List (List Char × Nat)) → List Char →
    Except Fault (List (String × String))
  | 0, _, _ => .ok []
  | rounds + 1, seen, s =>
    match skipBlank s with
    | [] => .ok []
    | c :: s => do
      let found ← readAttribute size seen c s
      let value ← (unescape found.value).mapError .value
      let more ←
        attributesIn size rounds ((found.key, found.position) :: seen) found.rest
      return (String.ofList found.key, String.ofList value) :: more

/-- The attributes of a tag. -/
def attributes (tag : Tag) : Except Fault (List (String × String)) :=
  attributesIn (Text.width tag.name + Text.width tag.rest) tag.rest.length [] tag.rest

end Tag

end ApiClient.Xml
