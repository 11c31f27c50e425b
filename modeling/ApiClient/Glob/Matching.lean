import ApiClient.Glob.Pattern
import ApiClient.Text.Width

/-!
# Matching

A pattern is held against the bytes of a whole path.

* `Piece.ends`: what can be left of a list of bytes behind a piece;
* `accepts`: whether nothing can be left behind all pieces.
-/

namespace ApiClient.Glob

/-- The byte of a slash. -/
def slash : UInt8 := 0x2F

/-- What is left of `s` behind the bytes `head`. -/
def afterBytes (head s : List UInt8) : List (List UInt8) :=
  if head.isPrefixOf s then [s.drop head.length] else []

/-- The ends of a list, itself included. -/
def ends : List UInt8 → List (List UInt8)
  | [] => [[]]
  | b :: s => (b :: s) :: ends s

/-- The ends of a list behind its slashes. -/
def endsBehindSlashes : List UInt8 → List (List UInt8)
  | [] => []
  | b :: s => if b = slash then s :: endsBehindSlashes s else endsBehindSlashes s

/-- The bytes of a character. -/
def charBytes (c : Char) : List UInt8 := Text.bytes [c]

/-- Whether a byte is in a range of characters. Of a character with several bytes all but one stand
for themselves: the last one of the first character and the first one of the last character are the
bounds of the range. -/
def inRange (b : UInt8) (range : Char × Char) : Bool :=
  let first := charBytes range.1
  let last := charBytes range.2
  if range.1 = range.2 then first.contains b
  else
    first.dropLast.contains b || last.tail.contains b ||
      (first.getLast?.getD 0 ≤ b && b ≤ last.head?.getD 0)

mutual

/-- What can be left of a list of bytes behind a piece. -/
def Piece.ends : Piece → List UInt8 → List (List UInt8)
  | .literal c, s => afterBytes (charBytes c) s
  | .any, s => if s.isEmpty then [] else [s.tail]
  | .many, s => Glob.ends s
  | .leading, s => s :: endsBehindSlashes s
  | .inner, s =>
    match s with
    | [] => []
    | b :: s => if b = slash then s :: endsBehindSlashes s else []
  | .trailing, s =>
    match s with
    | [] => []
    | b :: s => if b = slash then Glob.ends s else []
  | .oneOf negated ranges, s =>
    match s with
    | [] => []
    | b :: s => if ranges.any (inRange b) != negated then [s] else []
  | .choice branches, s => if allEmpty branches then [s] else endsOfSome branches s

/-- What can be left of some lists of bytes behind pieces in a row. -/
def endsOfAll : List Piece → List (List UInt8) → List (List UInt8)
  | [], starts => starts
  | piece :: pieces, starts => endsOfAll pieces (starts.flatMap piece.ends).eraseDups

/-- What can be left of a list of bytes behind one of several branches. An empty branch is none. -/
def endsOfSome : List (List Piece) → List UInt8 → List (List UInt8)
  | [], _ => []
  | branch :: branches, s =>
    (if isEmpty branch then [] else endsOfAll branch [s]) ++ endsOfSome branches s

/-- Whether a branch has nothing but empty choices. -/
def isEmpty : List Piece → Bool
  | [] => true
  | .choice branches :: pieces => allEmpty branches && isEmpty pieces
  | _ :: _ => false

/-- Whether all branches of a choice are empty. -/
def allEmpty : List (List Piece) → Bool
  | [] => true
  | branch :: branches => isEmpty branch && allEmpty branches

end

/-- Whether a pattern matches the bytes of a path as a whole. -/
def accepts (pieces : List Piece) (path : String) : Bool :=
  match pieces with
  | [.leading] => true
  | pieces => (endsOfAll pieces [Text.bytes path.toList]).any List.isEmpty

end ApiClient.Glob
