import ApiClient.Text.Hex
import ApiClient.Text.Width

/-!
# References in character data

* `Reference.Fault`: what can be wrong with a reference, with its wording;
* `predefined?`: the characters with a name of their own;
* `digitsValue`, `numbered`: characters given by number;
* `unescape`: character data with its references replaced.
-/

namespace ApiClient.Xml

namespace Reference

/-- What can be wrong with a reference. -/
inductive Fault where
  /-- An ampersand at `start` that no semicolon ends, in a text of `stop` bytes. -/
  | unterminated (start stop : Nat)
  /-- A name between the offsets `start` and `stop` that stands for nothing. -/
  | unknown (start stop : Nat) (name : String)
  | signed
  | noDigits
  | badDigit
  | tooLarge
  | nul
  | noCharacter (number : Nat)
  deriving DecidableEq, Repr, Inhabited

/-- The wording of a range of offsets. -/
def range (start stop : Nat) : String := toString start ++ ".." ++ toString stop

/-- The wording of a fault. -/
def Fault.message : Fault → String
  | .unterminated start stop =>
    "Error while escaping character at range " ++ range start stop ++
      ": Cannot find ';' after '&'"
  | .unknown start stop name =>
    "at " ++ range start stop ++ ": unrecognized entity `" ++ name ++ "`"
  | .signed => "invalid character reference: unexpected number sign"
  | .noDigits => "invalid character reference: cannot parse integer from empty string"
  | .badDigit => "invalid character reference: invalid digit found in string"
  | .tooLarge => "invalid character reference: number too large to fit in target type"
  | .nul => "invalid character reference: 0x0 character is not permitted in XML"
  | .noCharacter number =>
    "invalid character reference: `" ++ toString number ++ "` is not a valid codepoint"

/-- The character of a name. -/
def predefined? (name : List Char) : Option Char :=
  if name = ['l', 't'] then some '<'
  else if name = ['g', 't'] then some '>'
  else if name = ['a', 'm', 'p'] then some '&'
  else if name = ['a', 'p', 'o', 's'] then some '\''
  else if name = ['q', 'u', 'o', 't'] then some '"'
  else none

/-- The value of a digit in base `base`, which is ten or sixteen. -/
def digitValue? (base : Nat) (c : Char) : Option Nat := (Text.Hex.value? c).filter (· < base)

/-- The number that digits spell behind those of value `acc`. It has to fit in 32 bits. -/
def digitsValue (base : Nat) (acc : Nat) : List Char → Except Fault Nat
  | [] => .ok acc
  | c :: rest =>
    match digitValue? base c with
    | none => .error .badDigit
    | some d =>
      if base * acc + d < 0x100000000 then digitsValue base (base * acc + d) rest
      else .error .tooLarge

/-- The number that a text spells. -/
def numberValue (base : Nat) : List Char → Except Fault Nat
  | [] => .error .noDigits
  | c :: rest => if c = '+' ∨ c = '-' then .error .signed else digitsValue base 0 (c :: rest)

/-- The character of a number, which is written in decimal digits or, behind an `x`, in hexadecimal
ones. -/
def numbered (text : List Char) : Except Fault Char := do
  let n ←
    match text with
    | 'x' :: digits => numberValue 16 digits
    | digits => numberValue 10 digits
  if n = 0 then throw .nul
  else if n.isValidChar then return Char.ofNat n
  else throw (.noCharacter n)

/-- The character that stands between an ampersand at `start` and the next semicolon. -/
def character (start : Nat) (name : List Char) : Except Fault Char :=
  match name with
  | '#' :: text => numbered text
  | name =>
    match predefined? name with
    | some c => .ok c
    | none =>
      .error (.unknown (start + 1) (start + 1 + Text.width name) (String.ofList name))

end Reference

/-- Replaces the references in `s`, of which `offset` bytes have been read. `name?` is what has been
read since an ampersand that is still open, with the offset of that ampersand. -/
def unescapeFrom (offset : Nat) (name? : Option (Nat × List Char)) :
    List Char → Except Reference.Fault (List Char)
  | [] =>
    match name? with
    | none => .ok []
    | some (start, _) => .error (.unterminated start offset)
  | c :: s =>
    match name? with
    | none =>
      if c = '&' then unescapeFrom (offset + 1) (some (offset, [])) s
      else (c :: ·) <$> unescapeFrom (offset + c.utf8Size) none s
    | some (start, name) =>
      if c = ';' then do
        let x ← Reference.character start name
        (x :: ·) <$> unescapeFrom (offset + 1) none s
      else if c = '&' then .error (.unterminated start (offset + Text.width (c :: s)))
      else unescapeFrom (offset + c.utf8Size) (some (start, name ++ [c])) s

/-- Character data with its references replaced. -/
def unescape (s : List Char) : Except Reference.Fault (List Char) := unescapeFrom 0 none s

/-- The reference that stands for a character that cannot stand for itself everywhere. -/
def escapeChar (c : Char) : List Char :=
  if c = '<' then ['&', 'l', 't', ';']
  else if c = '>' then ['&', 'g', 't', ';']
  else if c = '&' then ['&', 'a', 'm', 'p', ';']
  else if c = '\'' then ['&', 'a', 'p', 'o', 's', ';']
  else if c = '"' then ['&', 'q', 'u', 'o', 't', ';']
  else [c]

/-- Character data in which the five characters with names are written as references. -/
def escape (s : List Char) : List Char := s.flatMap escapeChar

end ApiClient.Xml
