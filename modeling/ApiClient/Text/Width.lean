/-!
# Lengths in bytes

Offsets into a text count the bytes of its UTF-8 form.

* `width`: the length of a list of characters in bytes;
* `bytes`: those bytes;
* `decodeBytes?`: the text that a list of bytes spells, if it is UTF-8;
* `undecoded`: the bytes from the first on that begins no character.
-/

namespace ApiClient.Text

/-- The number of bytes that `s` takes in UTF-8. -/
def width : List Char → Nat
  | [] => 0
  | c :: rest => c.utf8Size + width rest

/-- The UTF-8 form of `s`. -/
def bytes (s : List Char) : List UInt8 := s.flatMap String.utf8EncodeChar

/-- The text whose UTF-8 form is `bs`. -/
def decodeBytes? (bs : List UInt8) : Option String := String.fromUTF8? ⟨bs.toArray⟩

/-- The number of bytes of the character that `bs` begins with. -/
def leadSize? (bs : List UInt8) : Option Nat :=
  [1, 2, 3, 4].find? fun size => (decodeBytes? (bs.take size)).isSome

/-- The bytes of `bs` from the first on that begins no character, where the first `inside` bytes
still belong to the character before them. -/
def undecodedBehind : (inside : Nat) → List UInt8 → List UInt8
  | _, [] => []
  | inside + 1, _ :: bs => undecodedBehind inside bs
  | 0, b :: bs =>
    match leadSize? (b :: bs) with
    | some size => undecodedBehind (size - 1) bs
    | none => b :: bs

/-- The bytes from the first on that begins no character. -/
def undecoded (bs : List UInt8) : List UInt8 := undecodedBehind 0 bs

end ApiClient.Text
