import ApiClient.Json.Skip
import ApiClient.Json.Value

/-!
# Reading records

JSON texts that have to be of a certain shape.

* `text`, `optionalText`, `texts`: strings, strings that may be null, and lists of strings;
* `Field`: a field of a record and how its value is read;
* `Shape`, `Shape.reader`: a record, written as an object or as the list of its fields.
-/

namespace ApiClient.Json

/-! ## Strings and lists -/

/-- A string. -/
def text (m : Medium) : Reader String := fun s =>
  match skipBlank s with
  | '"' :: s => string m s
  | s => .error (wrongType m "a string" s)

/-- A string, or null. -/
def optionalText (m : Medium) : Reader (Option String) := fun s =>
  match skipBlank s with
  | 'n' :: s => do
    let s ← word ['u', 'l', 'l'] s
    return (none, s)
  | s => do
    let (content, s) ← text m s
    return (some content, s)

/-- A list of what `item` reads. -/
def list {α : Type} (m : Medium) (item : Reader α) : Reader (List α) := fun s =>
  match skipBlank s with
  | '[' :: s => elements item s
  | s => .error (wrongType m "a sequence" s)

/-- A list of strings. -/
def texts (m : Medium) : Reader (List String) := list m (text m)

/-! ## Records -/

/-- A field of a record that is gathered in a `σ`. -/
structure Field (σ : Type) where
  name : String
  /-- Whether the value of the field has been read. -/
  isSet : σ → Bool
  /-- Reads the value into what has been gathered. -/
  value : σ → Reader σ
  /-- Whether a list of the fields may end before this one. -/
  mayEnd : Bool

/-- What becomes of keys that name no field. -/
inductive Unknown where
  /-- Their values are passed over. -/
  | skipped
  /-- They are faults. -/
  | refused
  deriving DecidableEq, Repr, Inhabited

/-- The shape of a record. -/
structure Shape (σ α : Type) where
  /-- The name of the record in messages. -/
  title : String
  /-- The wording of its number of fields. -/
  size : String
  /-- The fields in order of declaration. -/
  fields : List (Field σ)
  unknown : Unknown
  /-- What has been gathered before anything is read. -/
  empty : σ
  /-- The record that has been gathered, unless a field is missing. -/
  finish : σ → Except Fault α

namespace Shape

variable {σ α : Type}

/-- The names of the fields. -/
def names (shape : Shape σ α) : List String := shape.fields.map Field.name

/-- What to do with the value under a key: read it into its field, unless that has been set. -/
def member (shape : Shape σ α) : Member σ := fun state key =>
  match shape.fields.find? (·.name == key) with
  | some field =>
    if field.isSet state then .error (.repeatedField key) else .ok (field.value state)
  | none =>
    match shape.unknown with
    | .refused => .error (.unknownField key shape.names)
    | .skipped => .ok fun s => (fun s => (state, s)) <$> skipValue s

/-- The record that has been gathered when the bracket around it has been closed before `s`. -/
def close (shape : Shape σ α) (state : σ) (s : List Char) : Except Stop (α × List Char) :=
  match shape.finish state with
  | .ok x => .ok (x, s)
  | .error fault => .error (.here fault s .before)

/-- Closes the list of the fields behind its last one. -/
def closeList (shape : Shape σ α) (state : σ) (s : List Char) : Except Stop (α × List Char) :=
  match skipBlank s with
  | [] => stop .endInList []
  | c :: s =>
    if c = ']' then shape.close state s
    else if c = ',' then
      match skipBlank s with
      | ']' :: s => stop .trailingComma (']' :: s)
      | s => stop .trailingCharacters s
    else stop .trailingCharacters (c :: s)

/-- Reads the fields one after the other as the items of a list. `index` of them have been read. -/
def positional (shape : Shape σ α) (index : Nat) (state : σ) :
    List (Field σ) → Reader α
  | [], s => shape.closeList state s
  | field :: fields, s => do
    match ← nextItem (index == 0) s with
    | .closed s =>
      if (field :: fields).all Field.mayEnd then shape.close state s
      else
        let read := (field :: fields).takeWhile Field.mayEnd
        throw (.here (.wrongLength (index + read.length) (shape.title ++ shape.size)) s .before)
    | .goesOn s =>
      let (state, s) ← field.value state s
      shape.positional (index + 1) state fields s

/-- A record: an object with its fields as members, or a list of their values. -/
def reader (m : Medium) (shape : Shape σ α) : Reader α := fun s =>
  match skipBlank s with
  | '[' :: s => shape.positional 0 shape.empty shape.fields s
  | '\x7b' :: s => do
    let (state, s) ← members m shape.member shape.empty s
    shape.close state s
  | s => .error (wrongType m shape.title s)

end Shape

end ApiClient.Json
