import ApiClient.Json.Fault
import ApiClient.Text.Hex

/-!
# Words, numbers and strings of JSON

* `skipBlank`: the text behind JSON's own white space;
* `word`: the rest of a literal name;
* `number`: a number, with its exponent written out;
* `units`, `string`: a string from behind its opening quote.
-/

namespace ApiClient.Json

/-- White space between the parts of a JSON text. -/
def isBlank (c : Char) : Bool := c == ' ' || c == '\t' || c == '\n' || c == '\r'

/-- The text without the white space at its beginning. -/
def skipBlank (s : List Char) : List Char := s.dropWhile isBlank

/-! ## Words -/

/-- Takes the characters of `expected` one by one and gives what is left. -/
def word : (expected : List Char) → List Char → Except Stop (List Char)
  | [], s => .ok s
  | _ :: _, [] => stop .endInValue []
  | e :: expected, c :: s =>
    if c = e then word expected s else .error (.here .noIdent (c :: s) (.taken 1))

/-! ## Numbers -/

/-- The digits of an exponent, at least one. A text that ends too early has the fault `atEnd`. -/
def exponentDigits (atEnd : Fault) : Reader (List Char)
  | [] => stop atEnd []
  | c :: s =>
    if c.isDigit then .ok (c :: s.takeWhile Char.isDigit, s.dropWhile Char.isDigit)
    else .error (.here .badNumber (c :: s) (.taken 1))

/-- An exponent, if there is one: a small letter, a sign, and digits. -/
def exponent (atEnd : Fault) : Reader (List Char)
  | [] => .ok ([], [])
  | c :: s =>
    if c = 'e' ∨ c = 'E' then do
      let (sign, s) :=
        match s with
        | '+' :: s => ('+', s)
        | '-' :: s => ('-', s)
        | s => ('+', s)
      let (digits, s) ← exponentDigits atEnd s
      return ('e' :: sign :: digits, s)
    else .ok ([], c :: s)

/-- A fraction, if there is one, and then an exponent, if there is one. -/
def fraction (atEnd : Fault) : Reader (List Char)
  | '.' :: s =>
    let digits := s.takeWhile Char.isDigit
    let s := s.dropWhile Char.isDigit
    if digits.isEmpty then
      match s with
      | [] => stop atEnd []
      | c :: s => stop .badNumber (c :: s)
    else do
      let (tail, s) ← exponent atEnd s
      return ('.' :: digits ++ tail, s)
  | s => exponent atEnd s

/-- A number without its sign. -/
def unsigned (atEnd : Fault) : Reader (List Char)
  | [] => stop atEnd []
  | c :: s =>
    if c = '0' then
      match s with
      | d :: s =>
        if d.isDigit then stop .badNumber (d :: s)
        else do
          let (tail, s) ← fraction atEnd (d :: s)
          return ('0' :: tail, s)
      | [] => .ok (['0'], [])
    else if c.isDigit then do
      let digits := c :: s.takeWhile Char.isDigit
      let (tail, s) ← fraction atEnd (s.dropWhile Char.isDigit)
      return (digits ++ tail, s)
    else .error (.here .badNumber (c :: s) (.taken 1))

/-- A number. Its text is the one that is read, but for the exponent, which is written with a small
letter and a sign. -/
def number (atEnd : Fault) : Reader (List Char)
  | '-' :: s => do
    let (digits, s) ← unsigned atEnd s
    return ('-' :: digits, s)
  | s => unsigned atEnd s

/-! ## Strings -/

/-- The value of four hexadecimal digits. -/
def hex4? (a b c d : Char) : Option Nat := do
  let a ← Text.Hex.value? a
  let b ← Text.Hex.value? b
  let c ← Text.Hex.value? c
  let d ← Text.Hex.value? d
  return ((a * 16 + b) * 16 + c) * 16 + d

/-- Whether a code unit is the first of a surrogate pair. -/
def isHighSurrogate (n : Nat) : Bool := 0xD800 ≤ n && n ≤ 0xDBFF

/-- Whether a code unit is the second of a surrogate pair. -/
def isLowSurrogate (n : Nat) : Bool := 0xDC00 ≤ n && n ≤ 0xDFFF

/-- The character of a surrogate pair. -/
def pairChar (high low : Nat) : Char :=
  Char.ofNat (0x10000 + (high - 0xD800) * 0x400 + (low - 0xDC00))

/-- The character of an escape with one letter. -/
def plainEscape? (c : Char) : Option Char :=
  if c = '"' then some '"'
  else if c = '\\' then some '\\'
  else if c = '/' then some '/'
  else if c = 'b' then some '\x08'
  else if c = 'f' then some '\x0c'
  else if c = 'n' then some '\n'
  else if c = 'r' then some '\r'
  else if c = 't' then some '\t'
  else none

/-- The stop that `count` bytes of `s` lead to, if they are there but spell no code unit. -/
def takenStop (m : Medium) : (count : Nat) → List Char → Stop
  | count, [] => .here .badEscape [] (.taken count)
  | count, c :: s =>
    if count < m.width c then .here .badEscape (c :: s) (.taken count)
    else takenStop m (count - m.width c) s

/-- The stop of an escape that wants four hexadecimal digits and finds `s`. -/
def hexStop (m : Medium) (s : List Char) : Stop :=
  if m.size s < 4 then .here .endInString [] .before else takenStop m 4 s

/-- The stop of the first half of a surrogate pair that is followed by `s`. -/
def pairStop (m : Medium) : List Char → Stop
  | [] => .here .endInString [] .before
  | '\\' :: [] => .here .endInString [] .before
  | '\\' :: 'u' :: s => hexStop m s
  | '\\' :: c :: s => .here .brokenPair (c :: s) (.taken 1)
  | c :: s => .here .brokenPair (c :: s) (.taken 1)

/-- Puts units before those that are read later. -/
def prepend (before : List Char) (r : Except Stop (List Char × List Char)) :
    Except Stop (List Char × List Char) :=
  r.map fun p => (before ++ p.1, p.2)

/-- The units of a string from behind its opening quote, escapes replaced, and the text behind its
closing quote. -/
def units (m : Medium) : Reader (List Char)
  | [] => .error (.here .endInString [] .before)
  | '\\' :: 'u' :: a :: b :: c :: d :: s =>
    match hex4? a b c d with
    | none => .error (hexStop m (a :: b :: c :: d :: s))
    | some n =>
      if isLowSurrogate n then .error (.here .loneSurrogate s .before)
      else if isHighSurrogate n then
        match s with
        | '\\' :: 'u' :: e :: f :: g :: h :: s =>
          match hex4? e f g h with
          | none => .error (hexStop m (e :: f :: g :: h :: s))
          | some n' =>
            if isLowSurrogate n' then prepend (m.spell (pairChar n n')) (units m s)
            else .error (.here .loneSurrogate s .before)
        | s => .error (pairStop m s)
      else prepend (m.spell (Char.ofNat n)) (units m s)
  | '\\' :: c :: s =>
    if c = 'u' then .error (hexStop m s)
    else
      match plainEscape? c with
      | some x => prepend [x] (units m s)
      | none => .error (.here .badEscape (c :: s) (.taken 1))
  | c :: s =>
    if c = '"' then .ok ([], s)
    else if c = '\\' then .error (.here .endInString [] .before)
    else if c.toNat < 0x20 then .error (.here .controlCharacter (c :: s) (.taken 1))
    else prepend [c] (units m s)

/-- A string from behind its opening quote. Where its units are no text, the stop is as many units
before the end of the string as are left from the first of those on. -/
def string (m : Medium) (s : List Char) : Except Stop (String × List Char) := do
  let (content, rest) ← units m s
  match m.decode content with
  | .ok content => return (content, rest)
  | .error count =>
    .error (.here .notUnicode (s.drop (s.length - (rest.length + count))) .before)

end ApiClient.Json
