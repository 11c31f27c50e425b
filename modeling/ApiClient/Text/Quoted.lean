import ApiClient.Text.Hex
import ApiClient.Text.Shown

/-!
# Quoted literals

A text between double quotes. Quotes, backslashes and a few control characters have escapes of
two characters; what has no shape of its own is written by its code point.

* `escape`: one character between quotes;
* `quote`: a whole literal;
* `scan`: the text of a literal from behind its opening quote, and what follows the closing one.
-/

namespace ApiClient.Text.Quoted

/-- The code point of `c` in braces. -/
def codePoint (c : Char) : List Char :=
  '\\' :: 'u' :: '{' :: (Nat.toDigits 16 c.toNat ++ ['}'])

/-- The form that `c` has between quotes. -/
def escape (c : Char) : List Char :=
  if c = '"' then ['\\', '"']
  else if c = '\\' then ['\\', '\\']
  else if c = '\n' then ['\\', 'n']
  else if c = '\r' then ['\\', 'r']
  else if c = '\t' then ['\\', 't']
  else if c = Char.ofNat 0 then ['\\', '0']
  else if isShown c then [c]
  else codePoint c

/-- The literal of a text. -/
def quoteChars (s : List Char) : List Char := '"' :: (s.flatMap escape ++ ['"'])

/-- The literal of a text. -/
def quote (s : String) : String := String.ofList (quoteChars s.toList)

/-! ## Reading back -/

/-- Reads literal text up to the closing quote. The first argument is the value of the digits read
so far, inside braces. -/
def scan : Option Nat → List Char → Option (List Char × List Char)
  | _, [] => none
  | some n, c :: rest =>
    if c = '}' then (scan none rest).map fun p => (Char.ofNat n :: p.1, p.2)
    else (Hex.value? c).bind fun d => scan (some (16 * n + d)) rest
  | none, '"' :: rest => some ([], rest)
  | none, '\\' :: 'u' :: '{' :: rest => scan (some 0) rest
  | none, '\\' :: c :: rest =>
    let plain : Option Char :=
      if c = '"' then some '"' else if c = '\\' then some '\\' else if c = 'n' then some '\n'
      else if c = 'r' then some '\r' else if c = 't' then some '\t'
      else if c = '0' then some (Char.ofNat 0) else none
    plain.bind fun x => (scan none rest).map fun p => (x :: p.1, p.2)
  | none, c :: rest =>
    if c = '\\' then none else (scan none rest).map fun p => (c :: p.1, p.2)

end ApiClient.Text.Quoted
