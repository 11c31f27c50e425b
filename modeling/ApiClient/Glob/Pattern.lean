/-!
# Patterns for paths

* `Piece`: what a part of a pattern stands for;
* `Pattern.Fault`: what can be wrong with a pattern, with its wording;
* `Pattern.Branch`, `Pattern.Reading`: a pattern that has been read in part;
* `Pattern.compile`: the pieces of a pattern.
-/

namespace ApiClient.Glob

/-- A part of a pattern. -/
inductive Piece where
  | literal (c : Char)
  /-- Any byte. -/
  | any
  /-- Any number of bytes. -/
  | many
  /-- Two stars and a slash at the beginning: any number of steps. -/
  | leading
  /-- Two stars between slashes: any number of steps, or none. -/
  | inner
  /-- A slash and two stars at the end: everything inside. -/
  | trailing
  /-- One of the characters in the ranges, or none of them. -/
  | oneOf (negated : Bool) (ranges : List (Char × Char))
  /-- One of several patterns. -/
  | choice (branches : List (List Piece))
  deriving Repr, Inhabited

namespace Pattern

/-! ## Faults -/

/-- What can be wrong with a pattern. -/
inductive Fault where
  | unclosedClass
  | invalidRange (first last : Char)
  | unclosedChoice
  | unopenedChoice
  | dangling
  deriving DecidableEq, Repr, Inhabited

/-- The wording of a fault. -/
def Fault.message : Fault → String
  | .unclosedClass => "unclosed character class; missing ']'"
  | .invalidRange first last =>
    "invalid range; '" ++ first.toString ++ "' > '" ++ last.toString ++ "'"
  | .unclosedChoice =>
    "unclosed alternate group; missing '\x7d' (maybe escape '\x7b' with '[\x7b]'?)"
  | .unopenedChoice =>
    "unopened alternate group; missing '\x7b' (maybe escape '\x7d' with '[\x7d]'?)"
  | .dangling => "dangling '\\'"

/-! ## Classes -/

/-- A class of characters that has been read in part. -/
structure Class where
  /-- The ranges so far, the last one first. -/
  ranges : List (Char × Char) := []
  /-- Whether nothing has been read. -/
  atStart : Bool := true
  /-- Whether the last range goes on behind a hyphen. -/
  inRange : Bool := false

namespace Class

/-- Lets the last range end with `c`. -/
def extend (k : Class) (c : Char) : Except Fault Class :=
  match k.ranges with
  | [] => .ok { ranges := [(c, c)], atStart := false }
  | (first, _) :: rest =>
    if c < first then .error (.invalidRange first c)
    else .ok { ranges := (first, c) :: rest, atStart := false }

/-- The class behind a character that does not close it. A hyphen between two characters makes a
range. -/
def add (k : Class) (c : Char) : Except Fault Class :=
  if k.inRange then k.extend c
  else if c = '-' ∧ !k.atStart then .ok { k with inRange := true }
  else .ok { ranges := (c, c) :: k.ranges, atStart := false }

/-- The ranges in order. A hyphen at the end stands for itself. -/
def close (k : Class) : List (Char × Char) :=
  (if k.inRange then ('-', '-') :: k.ranges else k.ranges).reverse

/-- Reads a class up to its closing bracket. A closing bracket in front stands for itself. -/
def read (k : Class) : List Char → Except Fault (List (Char × Char) × List Char)
  | [] => .error .unclosedClass
  | c :: s =>
    if c = ']' ∧ !k.atStart then .ok (k.close, s)
    else do
      let k ← k.add c
      read k s

end Class

/-! ## Branches -/

/-- A pattern, or a branch of a choice, that has been read in part: its pieces so far, the last one
first. -/
abbrev Branch := List Piece

/-- A choice that is open: the branches before the current one, the last one first, and the branch
around the choice. -/
structure Choice where
  before : List Branch
  around : Branch

/-- A pattern that has been read in part. -/
structure Reading where
  /-- The choices that are open, the innermost first. -/
  choices : List Choice := []
  current : Branch := []
  /-- The character that was read last. -/
  last? : Option Char := none

namespace Reading

/-- The reading with a piece at its end. -/
def push (r : Reading) (piece : Piece) : Reading := { r with current := piece :: r.current }

/-- Opens a choice. -/
def openChoice (r : Reading) : Reading :=
  { r with choices := { before := [], around := r.current } :: r.choices, current := [] }

/-- A comma begins the next branch of a choice. Outside of choices it stands for itself. -/
def comma (r : Reading) : Reading :=
  match r.choices with
  | [] => r.push (.literal ',')
  | choice :: rest =>
    { r with
      choices := { choice with before := r.current :: choice.before } :: rest
      current := [] }

/-- Closes a choice. -/
def closeChoice (r : Reading) : Except Fault Reading :=
  match r.choices with
  | [] => .error .unopenedChoice
  | choice :: rest =>
    let branches := (r.current :: choice.before).reverse.map List.reverse
    .ok { r with choices := rest, current := .choice branches :: choice.around }

/-- Whether a whole step lies behind: a slash was read last or, inside a choice, a comma or an
opening brace. -/
def behindStep (r : Reading) : Bool :=
  r.last? == some '/' ||
    (!r.choices.isEmpty && (r.last? == some ',' || r.last? == some '\x7b'))

/-- Two stars for whole steps, which take the place of the slash before them. -/
def steps (r : Reading) (piece : Piece) : Reading :=
  match r.current with
  | .leading :: _ => r
  | .trailing :: _ => r
  | _ :: before => { r with current := piece :: before }
  | [] => { r with current := [piece] }

/-- Reads two stars, from behind them. They stand for whole steps if slashes or the ends of the
pattern, or of the branch, are around them. -/
def stars (r : Reading) (s : List Char) : Reading × List Char :=
  let plain : Reading := { (r.push .many).push .many with last? := some '*' }
  if r.current.isEmpty then
    match s with
    | [] => ({ r.push .leading with last? := some '*' }, [])
    | c :: rest =>
      if c = '/' then ({ r.push .leading with last? := some '/' }, rest) else (plain, s)
  else if !r.behindStep then (plain, s)
  else
    match s with
    | [] => ({ r.steps .trailing with last? := some '*' }, [])
    | c :: rest =>
      if c = '/' then ({ r.steps .inner with last? := some '/' }, rest)
      else if (c = ',' ∨ c = '\x7d') ∧ !r.choices.isEmpty then
        ({ r.steps .trailing with last? := some '*' }, s)
      else (plain, s)

end Reading

/-! ## Patterns -/

/-- Reads a pattern in so many rounds at most. A round takes a character at least, so the length of
the pattern bounds their number. -/
def readIn : (rounds : Nat) → Reading → List Char → Except Fault Reading
  | 0, r, _ => .ok r
  | _, r, [] => .ok r
  | rounds + 1, r, c :: s =>
    let next : Reading := { r with last? := some c }
    if c = '?' then readIn rounds (next.push .any) s
    else if c = '*' then
      match s with
      | '*' :: s =>
        let (r, s) := r.stars s
        readIn rounds r s
      | s => readIn rounds (next.push .many) s
    else if c = '[' then do
      let (negated, content) :=
        match s with
        | '!' :: s => (true, s)
        | '^' :: s => (true, s)
        | s => (false, s)
      let (ranges, s) ← Class.read {} content
      readIn rounds ({ r with last? := some ']' }.push (.oneOf negated ranges)) s
    else if c = '\x7b' then readIn rounds next.openChoice s
    else if c = '\x7d' then do
      let r ← next.closeChoice
      readIn rounds r s
    else if c = ',' then readIn rounds next.comma s
    else if c = '\\' then
      match s with
      | [] => .error .dangling
      | d :: s => readIn rounds ({ r with last? := some d }.push (.literal d)) s
    else readIn rounds (next.push (.literal c)) s

/-- The pieces of a pattern. -/
def compile (pattern : String) : Except Fault (List Piece) := do
  let r ← readIn pattern.length {} pattern.toList
  if r.choices.isEmpty then return r.current.reverse else throw .unclosedChoice

end Pattern

end ApiClient.Glob
