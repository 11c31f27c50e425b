/-!
# Texts without the characters at their ends

* `dropTail`, `strip`: a list of characters without the ones at its end, or at both ends, that
  satisfy a test;
* `isBlank`: Unicode `White_Space`;
* `trim`: a text without the white space at its ends;
* `stripSlashes`, `dropTailSlashes`: the same for the separator of path segments.
-/

namespace ApiClient.Text

/-- Drops the longest end of `s` whose characters all satisfy `p`. -/
def dropTail (p : Char → Bool) (s : List Char) : List Char :=
  (s.reverse.dropWhile p).reverse

/-- Drops the characters that satisfy `p` at both ends of `s`. -/
def strip (p : Char → Bool) (s : List Char) : List Char :=
  dropTail p (s.dropWhile p)

/-! ## White space -/

/-- White space, as Unicode's property `White_Space` has it. -/
def isBlank (c : Char) : Bool :=
  let n := c.toNat
  (0x09 ≤ n && n ≤ 0x0D) || n == 0x20 || n == 0x85 || n == 0xA0 || n == 0x1680 ||
    (0x2000 ≤ n && n ≤ 0x200A) || n == 0x2028 || n == 0x2029 || n == 0x202F || n == 0x205F ||
    n == 0x3000

/-- A text without the white space at its ends. -/
def trim (s : String) : String := String.ofList (strip isBlank s.toList)

/-! ## Slashes -/

/-- A text without the slashes at its ends. -/
def stripSlashes (s : List Char) : List Char := strip (· == '/') s

/-- A text without the slashes at its end. -/
def dropTailSlashes (s : List Char) : List Char := dropTail (· == '/') s

end ApiClient.Text
