import ApiClient.Text.Hex
import ApiClient.Text.Width

/-!
# Percent-encoded components

* `isUnreserved`: the characters that stand for themselves in a component of a URL (RFC 3986);
* `escapeByte`: a byte as a percent sign and two upper-case hexadecimal digits;
* `encode`: a text with every other character replaced by the escapes of its UTF-8 bytes;
* `decode?`: the text that an encoded component stands for.
-/

namespace ApiClient.Text.Percent

/-- The unreserved characters of RFC 3986. -/
def isUnreserved (c : Char) : Bool :=
  c.isAlphanum || c == '-' || c == '.' || c == '_' || c == '~'

/-- The escape of one byte. -/
def escapeByte (b : UInt8) : List Char :=
  ['%', Hex.capital (b.toNat / 16), Hex.capital (b.toNat % 16)]

/-- The encoding of one character. -/
def encodeChar (c : Char) : List Char :=
  if isUnreserved c then [c] else (String.utf8EncodeChar c).flatMap escapeByte

/-- The encoding of a text: unreserved characters as they are, all others escaped byte by byte. -/
def encode (s : List Char) : List Char := s.flatMap encodeChar

/-! ## Reading back -/

/-- The bytes that an encoded component stands for. -/
def decodeBytes? : List Char → Option (List UInt8)
  | [] => some []
  | '%' :: a :: b :: rest => do
    let high ← Hex.value? a
    let low ← Hex.value? b
    let more ← decodeBytes? rest
    return UInt8.ofNat (high * 16 + low) :: more
  | c :: rest => if c = '%' then none else (String.utf8EncodeChar c ++ ·) <$> decodeBytes? rest

/-- The text that an encoded component stands for. -/
def decode? (s : List Char) : Option String := (decodeBytes? s).bind Text.decodeBytes?

end ApiClient.Text.Percent
