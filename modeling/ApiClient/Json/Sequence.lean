import ApiClient.Json.Lexeme

/-!
# The items of lists and objects

* `Next`, `nextItem`, `nextKey`: whether a list or an object goes on, and where;
* `elements`: the items of a list, each read by one reader;
* `members`: the members of an object, each read as its key says;
* `colon`: the mark between a key and its value.

Every round of `elements` and `members` takes a byte at least, so the length of the text bounds
their number: with no rounds left there is no text left either.
-/

namespace ApiClient.Json

/-- Where a list or an object goes on. -/
inductive Next where
  /-- It has ended before this text. -/
  | closed (rest : List Char)
  /-- Its next item or key begins with this text. -/
  | goesOn (rest : List Char)
  deriving DecidableEq, Repr, Inhabited

/-- Finds the next item of a list, behind a comma unless it is the first. -/
def nextItem (first : Bool) (s : List Char) : Except Stop Next :=
  match skipBlank s with
  | [] => stop .endInList []
  | c :: s =>
    if c = ']' then .ok (.closed s)
    else if first then .ok (.goesOn (c :: s))
    else if c = ',' then
      match skipBlank s with
      | [] => stop .endInValue []
      | d :: s => if d = ']' then stop .trailingComma (d :: s) else .ok (.goesOn (d :: s))
    else stop .noCommaInList (c :: s)

/-- Finds the next key of an object, behind a comma unless it is the first. The text that is left
begins behind the quote that opens the key. -/
def nextKey (first : Bool) (s : List Char) : Except Stop Next :=
  match skipBlank s with
  | [] => stop .endInObject []
  | c :: s =>
    if c = '\x7d' then .ok (.closed s)
    else if first then
      if c = '"' then .ok (.goesOn s) else stop .keyNotString (c :: s)
    else if c = ',' then
      match skipBlank s with
      | [] => stop .endInValue []
      | d :: s =>
        if d = '"' then .ok (.goesOn s)
        else if d = '\x7d' then stop .trailingComma (d :: s)
        else stop .keyNotString (d :: s)
    else stop .noCommaInObject (c :: s)

/-- Takes the colon behind a key. -/
def colon (s : List Char) : Except Stop (List Char) :=
  match skipBlank s with
  | [] => stop .endInObject []
  | c :: s => if c = ':' then .ok s else stop .noColon (c :: s)

/-! ## Lists -/

/-- The items of a list, in so many rounds at most. -/
def elementsIn {α : Type} (item : Reader α) : (rounds : Nat) → (first : Bool) → Reader (List α)
  | 0, _, s => stop .endInList s
  | rounds + 1, first, s => do
    match ← nextItem first s with
    | .closed s => return ([], s)
    | .goesOn s =>
      let (x, s) ← item s
      let (xs, s) ← elementsIn item rounds false s
      return (x :: xs, s)

/-- The items of a list from behind its opening bracket. -/
def elements {α : Type} (item : Reader α) : Reader (List α) :=
  fun s => elementsIn item s.length true s

/-! ## Objects -/

/-- What to do with the value under a key, given what the members before it have come to: a reader
of the value, or a fault of the key. -/
abbrev Member (σ : Type) := σ → String → Except Fault (Reader σ)

/-- The stop of a key that has the fault `fault` and is followed by `s`. It is noticed when the
object is left, behind white space and a closing brace. -/
def leave (fault : Fault) (s : List Char) : Stop :=
  match skipBlank s with
  | [] => .here fault [] .seen
  | c :: s => if c = '\x7d' then .here fault s .before else .here fault (c :: s) .seen

/-- The members of an object, in so many rounds at most. -/
def membersIn {σ : Type} (m : Medium) (member : Member σ) :
    (rounds : Nat) → (first : Bool) → σ → Reader σ
  | 0, _, _, s => stop .endInObject s
  | rounds + 1, first, state, s => do
    match ← nextKey first s with
    | .closed s => return (state, s)
    | .goesOn s =>
      let (key, s) ← string m s
      match member state key with
      | .error fault => throw (leave fault s)
      | .ok value =>
        let s ← colon s
        let (state, s) ← value s
        membersIn m member rounds false state s

/-- The members of an object from behind its opening brace, starting from `state`. -/
def members {σ : Type} (m : Medium) (member : Member σ) (state : σ) : Reader σ :=
  fun s => membersIn m member s.length true state s

end ApiClient.Json
