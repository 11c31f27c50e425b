import ApiClient.Document
import ApiClient.Text.Hex

/-!
# Documents as JSON texts

The compact form: no white space, entries in order, and as few escapes as JSON allows.

* `escape`, `quote`: strings;
* `render`: documents.
-/

namespace ApiClient.Json

/-- The form of a character in a string: quotes, backslashes and control characters are escaped. -/
def escape (c : Char) : List Char :=
  if c = '"' then ['\\', '"']
  else if c = '\\' then ['\\', '\\']
  else if c = '\x08' then ['\\', 'b']
  else if c = '\x0c' then ['\\', 'f']
  else if c = '\n' then ['\\', 'n']
  else if c = '\r' then ['\\', 'r']
  else if c = '\t' then ['\\', 't']
  else if c.toNat < 0x20 then
    ['\\', 'u', '0', '0', Text.Hex.digit (c.toNat / 16), Text.Hex.digit (c.toNat % 16)]
  else [c]

/-- The string of a text. -/
def quote (s : String) : List Char := '"' :: (s.toList.flatMap escape ++ ['"'])

mutual

/-- The compact JSON text of a document. -/
def render : Document → List Char
  | .null => ['n', 'u', 'l', 'l']
  | .text content => quote content
  | .list [] => ['[', ']']
  | .list (d :: items) => '[' :: (render d ++ renderItems items)
  | .map [] => ['\x7b', '\x7d']
  | .map ((key, d) :: entries) =>
    '\x7b' :: (quote key ++ ':' :: (render d ++ renderEntries entries))

/-- The items behind the first one, and the closing bracket. -/
def renderItems : List Document → List Char
  | [] => [']']
  | d :: items => ',' :: (render d ++ renderItems items)

/-- The entries behind the first one, and the closing brace. -/
def renderEntries : List (String × Document) → List Char
  | [] => ['\x7d']
  | (key, d) :: entries => ',' :: (quote key ++ ':' :: (render d ++ renderEntries entries))

end

end ApiClient.Json
