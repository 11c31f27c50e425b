import ApiClient.Text.Quoted
import ApiClient.Text.Width

/-!
# What can be wrong with a JSON text, and where

* `Fault`: what is wrong;
* `Stop`: a fault together with the text that was left when it was met;
* `Medium`: how the units of a text relate to bytes, for a text in memory and for a stream;
* `Place`: a line and a column;
* `Json.Error`: a fault and its place, with its wording.
-/

namespace ApiClient.Json

/-! ## Faults -/

/-- The kind of a value that stands where another kind is expected. -/
inductive Found where
  | null
  | bool (value : Bool)
  /-- A number without a fraction or an exponent that fits in 64 bits. -/
  | integer (digits : String)
  /-- Any other number. -/
  | number
  | text (content : String)
  | sequence
  | map
  deriving DecidableEq, Repr, Inhabited

/-- What is wrong with a JSON text. -/
inductive Fault where
  | endInValue
  | endInString
  | endInList
  | endInObject
  | noValue
  | noIdent
  | noColon
  | noCommaInList
  | noCommaInObject
  | badEscape
  | badNumber
  | controlCharacter
  | keyNotString
  | loneSurrogate
  | brokenPair
  | notUnicode
  | trailingComma
  | trailingCharacters
  | tooDeep
  | wrongType (found : Found) (expected : String)
  | wrongLength (length : Nat) (expected : String)
  | missingField (name : String)
  | repeatedField (name : String)
  | unknownField (name : String) (expected : List String)
  | unknownVariant (name : String) (expected : List String)
  deriving DecidableEq, Repr, Inhabited

/-- The wording of a kind of value. -/
def Found.message : Found → String
  | .null => "null"
  | .bool value => "boolean `" ++ (if value then "true" else "false") ++ "`"
  | .integer digits => "integer `" ++ digits ++ "`"
  | .number => "number"
  | .text content => "string " ++ Text.Quoted.quote content
  | .sequence => "sequence"
  | .map => "map"

/-- The wording of a choice of names. -/
def oneOf : List String → String
  | [] => "there are no names"
  | [a] => "expected `" ++ a ++ "`"
  | [a, b] => "expected `" ++ a ++ "` or `" ++ b ++ "`"
  | names => "expected one of " ++ ", ".intercalate (names.map fun a => "`" ++ a ++ "`")

/-- The wording of a fault. -/
def Fault.message : Fault → String
  | .endInValue => "EOF while parsing a value"
  | .endInString => "EOF while parsing a string"
  | .endInList => "EOF while parsing a list"
  | .endInObject => "EOF while parsing an object"
  | .noValue => "expected value"
  | .noIdent => "expected ident"
  | .noColon => "expected `:`"
  | .noCommaInList => "expected `,` or `]`"
  | .noCommaInObject => "expected `,` or `\x7d`"
  | .badEscape => "invalid escape"
  | .badNumber => "invalid number"
  | .controlCharacter => "control character (\\u0000-\\u001F) found while parsing a string"
  | .keyNotString => "key must be a string"
  | .loneSurrogate => "lone leading surrogate in hex escape"
  | .brokenPair => "unexpected end of hex escape"
  | .notUnicode => "invalid unicode code point"
  | .trailingComma => "trailing comma"
  | .trailingCharacters => "trailing characters"
  | .tooDeep => "recursion limit exceeded"
  | .wrongType found expected =>
    "invalid type: " ++ found.message ++ ", expected " ++ expected
  | .wrongLength length expected =>
    "invalid length " ++ toString length ++ ", expected " ++ expected
  | .missingField name => "missing field `" ++ name ++ "`"
  | .repeatedField name => "duplicate field `" ++ name ++ "`"
  | .unknownField name expected => "unknown field `" ++ name ++ "`, " ++ oneOf expected
  | .unknownVariant name expected => "unknown variant `" ++ name ++ "`, " ++ oneOf expected

/-! ## Places -/

/-- A line, counted from one, and a column, the number of bytes before it on that line. -/
structure Place where
  line : Nat
  column : Nat
  deriving DecidableEq, Repr, Inhabited

/-- How the units of a text relate to bytes. -/
structure Medium where
  /-- The bytes that a unit takes. -/
  width : Char → Nat
  /-- The units that an escaped character stands for. -/
  spell : Char → List Char
  /-- The text of the units of a string, or the number of those from the first on that is no text.
  -/
  decode : List Char → Except Nat String
  /-- Whether a byte counts as read as soon as it has been looked at. -/
  eager : Bool

namespace Medium

/-- A text in memory: its units are characters. -/
def text : Medium where
  width := Char.utf8Size
  spell c := [c]
  decode units := .ok (String.ofList units)
  eager := false

/-- The unit of a stream that stands for a byte. -/
def unitOfByte (b : UInt8) : Char := Char.ofNat b.toNat

/-- A stream: its units are bytes, each standing as the character of its number. -/
def stream : Medium where
  width _ := 1
  spell c := (String.utf8EncodeChar c).map unitOfByte
  decode units :=
    let bytes := units.map fun c => UInt8.ofNat c.toNat
    match Text.decodeBytes? bytes with
    | some content => .ok content
    | none => .error (Text.undecoded bytes).length
  eager := true

/-- The bytes that units take. -/
def size (m : Medium) : List Char → Nat
  | [] => 0
  | c :: s => m.width c + m.size s

end Medium

namespace Place

/-- The place behind `before`. -/
def behind (m : Medium) (before : List Char) : Place :=
  before.foldl
    (fun p c => if c = '\n' then ⟨p.line + 1, 0⟩ else ⟨p.line, p.column + m.width c⟩) ⟨1, 0⟩

/-- The place that is `count` bytes into `rest`, the bytes of one character at most. -/
def into (p : Place) (count : Nat) (rest : List Char) : Place :=
  if count = 0 then p
  else
    match rest with
    | [] => p
    | c :: _ => if c = '\n' then ⟨p.line + 1, 0⟩ else ⟨p.line, p.column + count⟩

end Place

/-! ## Where reading stops -/

/-- How far a reader has come when it meets a fault, counted from the text that is left. -/
inductive Reach where
  /-- Nothing of what is left has been touched. -/
  | before
  /-- The next byte has been looked at. -/
  | seen
  /-- The fault is that of the next byte, which has not been taken. -/
  | ahead
  /-- So many bytes of what is left have been taken, all of one character. -/
  | taken (count : Nat)
  deriving DecidableEq, Repr, Inhabited

/-- The bytes of what is left that count as read. -/
def Reach.count (m : Medium) : Reach → Nat
  | .before => 0
  | .seen => if m.eager then 1 else 0
  | .ahead => 1
  | .taken count => count

/-- The end of a reading that failed. -/
inductive Stop where
  /-- A fault of the text, with what was left of it. -/
  | here (fault : Fault) (rest : List Char) (reach : Reach)
  /-- A fault of another text, with its place there. -/
  | elsewhere (fault : Fault) (place : Place)
  deriving DecidableEq, Repr, Inhabited

/-- A fault and its place. -/
structure Error where
  fault : Fault
  place : Place
  deriving DecidableEq, Repr, Inhabited

/-- The wording of a fault with its place. -/
def Error.message (e : Error) : String :=
  e.fault.message ++ " at line " ++ toString e.place.line ++ " column " ++ toString e.place.column

/-- The place of a stop in `whole`, of which what is left is an end. -/
def Stop.locate (m : Medium) (whole : List Char) : Stop → Error
  | .here fault rest reach =>
    let before := whole.take (whole.length - rest.length)
    { fault, place := (Place.behind m before).into (reach.count m) rest }
  | .elsewhere fault place => { fault, place }

/-- A reader takes a beginning of a text and gives what it stands for and what is left. -/
abbrev Reader (α : Type) := List Char → Except Stop (α × List Char)

/-- A fault of the next byte. -/
def stop {α : Type} (fault : Fault) (rest : List Char) : Except Stop α :=
  .error (.here fault rest .ahead)

end ApiClient.Json
