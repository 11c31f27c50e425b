import ApiClient.Document
import ApiClient.Json.Sequence

/-!
# JSON texts as documents

* `value`: a JSON value, with a bound on its nesting;
* `numberKey`: a key that makes an object stand for a number when it comes first;
* `read`: everything that a text has to be, white space included;
* `parse`: the document of a JSON text.

Numbers and truth values become texts, an object the map of its members, the last of each key.
-/

namespace ApiClient.Json

/-! ## Numbers written as objects -/

/-- The key that makes an object stand for the number in its value. -/
def numberKey : String := "$serde_json::private::Number"

/-- What follows the key of an object from behind its opening brace, if its first key is
`numberKey`. -/
def afterNumberKey? (s : List Char) : Option (List Char) :=
  match skipBlank s with
  | '"' :: s =>
    match string .text s with
    | .ok (key, s) => if key == numberKey then some s else none
    | .error _ => none
  | _ => none

/-- The stop of a number that has to be a whole text, but whose reading came to `s`. -/
def trailingStop : Stop → Stop
  | .here fault rest (.taken count) =>
    match rest with
    | [] => .here fault [] .before
    | c :: rest =>
      if count < c.utf8Size then .here .badNumber (c :: rest) (.taken (count + 1))
      else if rest.isEmpty then .here fault [c] (.taken count)
      else .here .badNumber rest .ahead
  | .here fault rest reach =>
    if rest.isEmpty then .here fault [] reach else .here .badNumber rest .ahead
  | .elsewhere fault place => .elsewhere fault place

/-- The number that makes up the whole of `s`. -/
def wholeNumber (s : List Char) : Except Stop (List Char) :=
  let first :=
    match s with
    | [] => stop .endInValue []
    | c :: rest => if c = '-' ∨ c.isDigit then number .endInValue s else stop .badNumber (c :: rest)
  match first with
  | .ok (digits, []) => .ok digits
  | .ok (_, c :: rest) => stop .badNumber (c :: rest)
  | .error e => .error (trailingStop e)

/-- The number that the content of a string spells. Its faults have their places in that content. -/
def numberOfString (content : String) : Except Stop String :=
  match wholeNumber content.toList with
  | .ok digits => .ok (String.ofList digits)
  | .error e =>
    let error := e.locate .text content.toList
    .error (.elsewhere error.fault error.place)

/-! ## Values of the wrong kind -/

/-- What a number counts as when no number is expected. -/
def foundNumber (digits : List Char) : Found :=
  let magnitude (ds : List Char) : Nat := ds.foldl (fun n c => 10 * n + (c.toNat - '0'.toNat)) 0
  match digits with
  | '-' :: ds =>
    if ds.all Char.isDigit && ds != ['0'] && magnitude ds ≤ 0x8000000000000000 then
      .integer (String.ofList digits)
    else .number
  | ds =>
    if ds.all Char.isDigit && magnitude ds < 0x10000000000000000 then
      .integer (String.ofList digits)
    else .number

/-- The stop of a value that begins with `s`, where `expected` stands for a value of another kind. A
list or an object is not entered, any other value is read first. -/
def wrongType (m : Medium) (expected : String) : List Char → Stop
  | [] => .here .endInValue [] .ahead
  | c :: s =>
    let result : Except Stop Stop :=
      if c = 'n' then do
        let s ← word ['u', 'l', 'l'] s
        return .here (.wrongType .null expected) s .before
      else if c = 't' then do
        let s ← word ['r', 'u', 'e'] s
        return .here (.wrongType (.bool true) expected) s .before
      else if c = 'f' then do
        let s ← word ['a', 'l', 's', 'e'] s
        return .here (.wrongType (.bool false) expected) s .before
      else if c = '-' ∨ c.isDigit then do
        let (digits, s) ← number .endInValue (c :: s)
        return .here (.wrongType (foundNumber digits) expected) s .seen
      else if c = '"' then do
        let (content, s) ← string m s
        return .here (.wrongType (.text content) expected) s .before
      else if c = '[' then
        return .here (.wrongType .sequence expected) (c :: s) .seen
      else if c = '\x7b' then
        return .here (.wrongType .map expected) (c :: s) .seen
      else return .here .noValue (c :: s) .ahead
    match result with
    | .ok stop => stop
    | .error stop => stop

/-- A string that spells a number. -/
def numberString : Reader String := fun s =>
  match skipBlank s with
  | '"' :: s => do
    let (content, s) ← string .text s
    let digits ← numberOfString content
    return (digits, s)
  | s => .error (wrongType .text "string containing a number" s)

/-- The number that an object stands for, from behind its first key. -/
def numberMember (s : List Char) : Except Stop (Document × List Char) := do
  let s ← colon s
  let (digits, s) ← numberString s
  match skipBlank s with
  | [] => stop .endInObject []
  | c :: s =>
    if c = '\x7d' then return (.text digits, s)
    else if c = ',' then stop .trailingComma (c :: s)
    else stop .trailingCharacters (c :: s)

/-! ## Values -/

/-- A JSON value in which at most `depth` lists and objects are nested. -/
def value (depth : Nat) : Reader Document := fun s =>
  match skipBlank s with
  | [] => stop .endInValue []
  | c :: s =>
    if c = 'n' then do
      let s ← word ['u', 'l', 'l'] s
      return (.null, s)
    else if c = 't' then do
      let s ← word ['r', 'u', 'e'] s
      return (.text "true", s)
    else if c = 'f' then do
      let s ← word ['a', 'l', 's', 'e'] s
      return (.text "false", s)
    else if c = '-' ∨ c.isDigit then do
      let (digits, s) ← number .endInValue (c :: s)
      return (.text (String.ofList digits), s)
    else if c = '"' then do
      let (content, s) ← string .text s
      return (.text content, s)
    else if c = '[' then
      match depth with
      | 0 => stop .tooDeep (c :: s)
      | depth + 1 => do
        let (items, s) ← elements (value depth) s
        return (.list items, s)
    else if c = '\x7b' then
      match depth with
      | 0 => stop .tooDeep (c :: s)
      | depth + 1 =>
        match afterNumberKey? s with
        | some s => numberMember s
        | none => do
          let member : Member (List (String × Document)) := fun entries key =>
            .ok fun s => do
              let (d, s) ← value depth s
              return (Entries.insert key d entries, s)
          let (entries, s) ← members .text member [] s
          return (.map entries, s)
    else stop .noValue (c :: s)

/-- Lists and objects may be nested so deep. -/
def maxDepth : Nat := 127

/-! ## Whole texts -/

/-- What `reader` makes of a text, if nothing but white space is left. -/
def read {α : Type} (m : Medium) (reader : Reader α) (s : List Char) : Except Error α :=
  let result : Except Stop α := do
    let (x, rest) ← reader s
    match skipBlank rest with
    | [] => return x
    | c :: rest => stop .trailingCharacters (c :: rest)
  result.mapError (Stop.locate m s)

/-- The document of a JSON text. -/
def parse (text : String) : Except Error Document := read .text (value maxDepth) text.toList

end ApiClient.Json
