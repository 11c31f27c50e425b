import ApiClient.Json.Sequence

/-!
# Values that nobody asks for

The value under an unknown key is passed over. Its brackets, commas and keys have to be in order,
but there is no bound on its nesting and no look at the surrogates in its strings.

* `skipString`, `skipScalar`: passing over what holds no other values;
* `Bracket`, `skipFrom`: passing over the rest of a value inside open brackets;
* `skipValue`: passing over a whole value.
-/

namespace ApiClient.Json

/-- Passes over a string from behind its opening quote. -/
def skipString : List Char → Except Stop (List Char)
  | [] => .error (.here .endInString [] .before)
  | '\\' :: 'u' :: a :: b :: c :: d :: s =>
    if (hex4? a b c d).isSome then skipString s
    else .error (hexStop .text (a :: b :: c :: d :: s))
  | '\\' :: c :: s =>
    if c = 'u' then .error (hexStop .text s)
    else if (plainEscape? c).isSome then skipString s
    else .error (.here .badEscape (c :: s) (.taken 1))
  | c :: s =>
    if c = '"' then .ok s
    else if c = '\\' then .error (.here .endInString [] .before)
    else if c.toNat < 0x20 then .error (.here .controlCharacter (c :: s) .before)
    else skipString s

/-- Passes over a word, a number or a string. -/
def skipScalar : List Char → Except Stop (List Char)
  | [] => stop .endInValue []
  | c :: s =>
    if c = 'n' then word ['u', 'l', 'l'] s
    else if c = 't' then word ['r', 'u', 'e'] s
    else if c = 'f' then word ['a', 'l', 's', 'e'] s
    else if c = '-' ∨ c.isDigit then (·.2) <$> number .badNumber (c :: s)
    else if c = '"' then skipString s
    else stop .noValue (c :: s)

/-- An open bracket. -/
inductive Bracket where
  | list
  | object
  deriving DecidableEq, Repr, Inhabited

namespace Bracket

/-- The bracket that a character opens. -/
def opened? (c : Char) : Option Bracket :=
  if c = '[' then some .list else if c = '\x7b' then some .object else none

/-- The character that closes a bracket. -/
def closing : Bracket → Char
  | .list => ']'
  | .object => '\x7d'

/-- The fault of a text that ends inside a bracket. -/
def atEnd : Bracket → Fault
  | .list => .endInList
  | .object => .endInObject

/-- The fault of a value that neither a comma nor the closing bracket follows. -/
def noComma : Bracket → Fault
  | .list => .noCommaInList
  | .object => .noCommaInObject

/-- Passes over what stands before a value inside a bracket: in an object, a key and a colon. -/
def skipKey : Bracket → List Char → Except Stop (List Char)
  | .list, s => .ok s
  | .object, s =>
    match skipBlank s with
    | [] => stop .endInObject []
    | c :: s => if c = '"' then do colon (← skipString s) else stop .keyNotString (c :: s)

end Bracket

/-- Passes over the rest of a value, in so many rounds at most. If `due`, a value comes next,
otherwise one has just ended; `open_` are the brackets around it, the innermost first. -/
def skipFrom : (rounds : Nat) → (due : Bool) → (open_ : List Bracket) → List Char →
    Except Stop (List Char)
  | _, false, [], s => .ok s
  | 0, true, _, s => stop .endInValue s
  | 0, false, b :: _, s => stop b.atEnd s
  | rounds + 1, true, open_, s =>
    match skipBlank s with
    | [] => stop .endInValue []
    | c :: s =>
      match Bracket.opened? c with
      | none => do skipFrom rounds false open_ (← skipScalar (c :: s))
      | some b =>
        match skipBlank s with
        | [] => stop b.atEnd []
        | d :: s =>
          if d = b.closing then skipFrom rounds false open_ s
          else do skipFrom rounds true (b :: open_) (← b.skipKey (d :: s))
  | rounds + 1, false, b :: open_, s =>
    match skipBlank s with
    | [] => stop b.atEnd []
    | c :: s =>
      if c = ',' then do skipFrom rounds true (b :: open_) (← b.skipKey s)
      else if c = b.closing then skipFrom rounds false open_ s
      else stop b.noComma (c :: s)

/-- Passes over a value. -/
def skipValue (s : List Char) : Except Stop (List Char) := skipFrom s.length true [] s

end ApiClient.Json
