import ApiClient.Generation.Client
import ApiClient.Proofs.Code.Lines
import ApiClient.Proofs.Text.Quoted

/-!
# Reading a client's file

The file of a client is read line by line. What a line tells begins with fixed words, behind any
number of spaces.

* `Declared`: what a line can tell;
* `forms`: the words that such lines begin with, and how the rest of the line is read;
* `readLine?`, `declared`: what a line tells, and what the lines of a text tell;
* `endpointsOf`: four lines in a row tell an endpoint;
* `Contents`, `read?`, `functions`: what a whole file tells;
* `readLine?_form`, `readLine?_of_head`: lines that tell something, and lines that do not;
* `told_line`, `told_block`: what lines of code tell.
-/

namespace ApiClient.Client

open Text

/-- What a line of a client's file can tell. -/
inductive Declared where
  | moduleName (name : String)
  | version (version? : Option String)
  | format (format : Format)
  | implementation
  | function (name : String)
  | name (text : String)
  | method (method : Method)
  | path (text : String)
  | params (texts : List String)
  deriving DecidableEq, Repr

/-! ## Words and literals -/

/-- The word up to `stop`. -/
def word (stop : Char) (s : List Char) : String := String.ofList (s.takeWhile (· != stop))

/-- The text of the literal whose opening quote stands before `s`. -/
def literal? (s : List Char) : Option String := (Quoted.scan none s).map (String.ofList ·.1)

/-- What follows a comma and a space, if they are there. -/
def behindComma : List Char → List Char
  | ',' :: ' ' :: rest => rest
  | s => s

theorem behindComma_length (s : List Char) : (behindComma s).length ≤ s.length := by
  unfold behindComma
  split
  · simp
    omega
  · simp

/-- The texts of the literals up to a closing bracket. -/
def literals? (s : List Char) : Option (List String) :=
  match s with
  | ']' :: _ => some []
  | '"' :: s =>
    match _h : Quoted.scan none s with
    | none => none
    | some (text, rest) => (String.ofList text :: ·) <$> literals? (behindComma rest)
  | _ => none
termination_by s.length
decreasing_by
  have hscan := Quoted.length_of_scan ‹_›
  have hcomma := behindComma_length rest
  simp only [List.length_cons]
  omega

/-! ## Lines -/

/-- The words that a line begins with if it tells something, and what the rest of the line says. -/
def forms : List (String × (List Char → Option Declared)) :=
  [ ("pub mod ", fun s => some (.moduleName (word ' ' s))),
    ("const VERSION: Option<&str> = None;", fun _ => some (.version none)),
    ("const VERSION: Option<&str> = Some(\"", fun s => (literal? s).map (.version ∘ some)),
    ("const FORMAT: Format = Format::", fun s =>
      (Format.all.find? (·.parserName == word ';' s)).map .format),
    ("impl<", fun _ => some .implementation),
    ("pub fn ", fun s => some (.function (word '(' s))),
    ("fn ", fun s => some (.function (word '(' s))),
    ("name: \"", fun s => (literal? s).map .name),
    ("method: Method::", fun s => (Method.all.find? (·.variant == word ',' s)).map .method),
    ("path: \"", fun s => (literal? s).map .path),
    ("params: &[", fun s => (literals? s).map .params) ]

/-- What a line tells. -/
def readLine? (line : List Char) : Option Declared :=
  let text := line.dropWhile (· == ' ')
  (forms.find? (·.1.toList.isPrefixOf text)).bind fun form => form.2 (text.drop form.1.length)

/-- What the lines of a text tell, in order. -/
def declared (text : List Char) : List Declared := (split '\n' text).filterMap readLine?

/-! ## Files -/

/-- Four lines in a row tell an endpoint. -/
def endpointsOf : List Declared → List Endpoint
  | .name name :: .method method :: .path path :: .params params :: rest =>
    { name, method, path, params } :: endpointsOf rest
  | _ :: rest => endpointsOf rest
  | [] => []

/-- What a client's file tells. -/
structure Contents where
  moduleName? : Option String
  version? : Option String
  format : Format
  endpoints : List Endpoint
  deriving DecidableEq, Repr

namespace Declared

/-- The module that a line opens. -/
def moduleName? : Declared → Option String
  | .moduleName s => some s
  | _ => none

/-- The version that a line sets, if it sets one or none. -/
def version? : Declared → Option (Option String)
  | .version s? => some s?
  | _ => none

/-- The format that a line sets. -/
def format? : Declared → Option Format
  | .format f => some f
  | _ => none

/-- The function that a line opens. -/
def function? : Declared → Option String
  | .function s => some s
  | _ => none

end Declared

/-- Reads the file of a client. -/
def read? (text : String) : Option Contents := do
  let lines := declared text.toList
  let version? ← lines.findSome? Declared.version?
  let format ← lines.findSome? Declared.format?
  return {
    moduleName? := lines.findSome? Declared.moduleName?
    version?
    format
    endpoints := endpointsOf lines }

/-- The functions of the implementation in a client's file. -/
def functions (text : String) : List String :=
  ((declared text.toList).dropWhile (· != .implementation)).filterMap Declared.function?

/-! ## Reading literals -/

theorem literal?_escaped (s : String) (rest : List Char) :
    literal? (s.toList.flatMap Quoted.escape ++ '"' :: rest) = some s := by
  rw [literal?, Quoted.scan_quoted, Option.map_some, String.ofList_toList]

theorem literals?_quoted (s : String) (rest : List Char) :
    literals? (Quoted.quoteChars s.toList ++ rest) =
      (s :: ·) <$> literals? (behindComma rest) := by
  rw [Quoted.quoteChars, List.cons_append, List.append_assoc, List.singleton_append, literals?]
  split
  · next h => rw [Quoted.scan_quoted] at h; cases h
  · next text rest' h =>
    rw [Quoted.scan_quoted] at h
    cases h
    rw [String.ofList_toList]

theorem toList_literal (s : String) : (literal s).toList = Quoted.quoteChars s.toList := by
  simp [literal, Quoted.quote]

theorem literals?_intercalate (texts : List String) (rest : List Char) :
    literals? ((", ".intercalate (texts.map literal)).toList ++ ']' :: rest) = some texts := by
  rw [String.toList_intercalate, List.map_map]
  induction texts with
  | nil => simp [literals?]
  | cons s texts ih =>
    cases texts with
    | nil =>
      rw [List.map_singleton, List.intercalate_singleton, Function.comp_apply, toList_literal,
        literals?_quoted, behindComma, literals?]
      · rfl
      · simp
    | cons s' texts =>
      rw [List.map_cons, List.map_cons, List.intercalate_cons_cons, ← List.map_cons (a := s'),
        Function.comp_apply, toList_literal, List.append_assoc, List.append_assoc,
        literals?_quoted]
      have hcomma : ∀ t, behindComma (", ".toList ++ t) = t := fun _ => rfl
      rw [hcomma, ih]
      rfl

/-! ## Forms -/

/-- Two texts are different at a place that both have. -/
def differ : List Char → List Char → Bool
  | c :: s, d :: t => c != d || differ s t
  | _, _ => false

theorem isPrefixOf_of_differ {s t : List Char} (h : differ s t = true) (rest : List Char) :
    s.isPrefixOf (t ++ rest) = false := by
  induction s generalizing t with
  | nil => simp [differ] at h
  | cons c s ih =>
    cases t with
    | nil => simp [differ] at h
    | cons d t =>
      rw [differ, Bool.or_eq_true, bne_iff_ne] at h
      rw [List.cons_append, List.isPrefixOf, Bool.and_eq_false_iff]
      rcases h with hne | h
      · exact .inl (beq_false_of_ne hne)
      · exact .inr (ih h)

/-- The words that lines begin with that tell something: no two of them begin alike, and each begins
with one of a few letters. -/
theorem exists_beginnings : ∃ beginnings : List (List Char),
    forms.map (·.1) = beginnings.map String.ofList ∧
      beginnings.Pairwise (differ · · = true) ∧
        ∀ s ∈ beginnings, s.head?.any (· ∈ ['p', 'c', 'i', 'f', 'n', 'm']) = true :=
  ⟨[_, _, _, _, _, _, _, _, _, _, _], rfl, by decide, by decide⟩

theorem differ_forms : (forms.map (·.1.toList)).Pairwise (differ · · = true) := by
  obtain ⟨beginnings, hforms, hdiffer, -⟩ := exists_beginnings
  have hchars := congrArg (List.map String.toList) hforms
  simp only [List.map_map, Function.comp_def, String.toList_ofList, List.map_id'] at hchars
  rwa [hchars]

theorem head_of_forms : ∀ form ∈ forms, ∃ c rest, form.1.toList = c :: rest ∧
    c ∈ ['p', 'c', 'i', 'f', 'n', 'm'] := by
  obtain ⟨beginnings, hforms, -, hheads⟩ := exists_beginnings
  intro form hform
  have hmem : form.1 ∈ beginnings.map String.ofList := hforms ▸ List.mem_map_of_mem hform
  obtain ⟨s, hs, hform⟩ := List.mem_map.mp hmem
  have hhead := hheads s hs
  rw [Option.any_eq_true] at hhead
  obtain ⟨c, hc, hletter⟩ := hhead
  obtain ⟨rest, rfl⟩ := List.head?_eq_some_iff.mp hc
  rw [← hform, String.toList_ofList]
  exact ⟨c, rest, rfl, of_decide_eq_true hletter⟩

/-- A line that begins as a form does is read by that form. -/
theorem readLine?_form {words : String} {read : List Char → Option Declared}
    (h : (words, read) ∈ forms) (rest : List Char) :
    readLine? (words.toList ++ rest) = read rest := by
  obtain ⟨before, after, hforms⟩ := List.append_of_mem h
  have hdrop : (words.toList ++ rest).dropWhile (· == ' ') = words.toList ++ rest := by
    obtain ⟨c, more, hc, hletter⟩ := head_of_forms _ h
    have hspace : ¬ (c == ' ') = true := by
      intro hspace
      rw [beq_iff_eq.mp hspace] at hletter
      exact absurd hletter (by decide)
    rw [hc, List.cons_append]
    exact List.dropWhile_cons_of_neg hspace
  -- the forms before begin in another way, so none of them is found
  have hbefore : before.find? (·.1.toList.isPrefixOf (words.toList ++ rest)) = none := by
    have hdiffer := differ_forms
    rw [hforms, List.map_append, List.pairwise_append] at hdiffer
    rw [List.find?_eq_none]
    intro other hother
    rw [isPrefixOf_of_differ (hdiffer.2.2 _ (List.mem_map_of_mem hother) _ List.mem_cons_self)]
    exact Bool.false_ne_true
  have hself : words.toList.isPrefixOf (words.toList ++ rest) = true :=
    List.isPrefixOf_iff_prefix.mpr (List.prefix_append _ _)
  have hfind : forms.find? (·.1.toList.isPrefixOf (words.toList ++ rest)) = some (words, read) := by
    rw [hforms, List.find?_append, hbefore, Option.none_or]
    exact List.find?_cons_of_pos hself
  rw [readLine?, hdrop, hfind, Option.bind_some, ← String.length_toList, List.drop_left]

/-- A line with a fixed beginning is read by the form that this beginning has. -/
theorem readLine?_fixed {s words : String} {l w : List Char} {read : List Char → Option Declared}
    (hs : s = String.ofList l) (hwords : words = String.ofList w) (h : (words, read) ∈ forms)
    (hw : w.isPrefixOf l = true) (rest : List Char) :
    readLine? (s.toList ++ rest) = read (l.drop w.length ++ rest) := by
  obtain ⟨more, rfl⟩ := List.isPrefixOf_iff_prefix.mp hw
  have hread := readLine?_form h (more ++ rest)
  rw [hwords, String.toList_ofList] at hread
  rw [hs, String.toList_ofList, List.append_assoc, hread, List.drop_left]

/-- A line that begins with another letter tells nothing. -/
theorem readLine?_of_head {c : Char} (hc : c ∉ [' ', 'p', 'c', 'i', 'f', 'n', 'm'])
    (rest : List Char) : readLine? (c :: rest) = none := by
  rw [List.mem_cons, not_or] at hc
  have hspace : (c == ' ') = false := by simpa using hc.1
  have hnone : forms.find? (·.1.toList.isPrefixOf (c :: rest)) = none := by
    rw [List.find?_eq_none]
    intro form hf
    obtain ⟨d, more, hd, hmem⟩ := head_of_forms form hf
    have hne : d ≠ c := fun h => hc.2 (h ▸ hmem)
    simp [hd, hne]
  rw [readLine?, List.dropWhile_cons, if_neg (by simp [hspace]), hnone]
  rfl

theorem readLine?_other {c : Char} {rest : List Char} {s : String}
    (hs : s = String.ofList (c :: rest)) (hc : c ∉ [' ', 'p', 'c', 'i', 'f', 'n', 'm']) :
    readLine? s.toList = none := by
  rw [hs, String.toList_ofList, readLine?_of_head hc]

/-- A line with a fixed beginning that is different from every form tells nothing. -/
theorem readLine?_unlike (beginnings : List (List Char)) {s : String} {c : Char} {l : List Char}
    (hforms : forms.map (·.1) = beginnings.map String.ofList) (hs : s = String.ofList (c :: l))
    (hdiffer : ∀ b ∈ beginnings, differ b (c :: l) = true) (hc : c ≠ ' ') (rest : List Char) :
    readLine? (s.toList ++ rest) = none := by
  have hnone : forms.find? (·.1.toList.isPrefixOf (c :: l ++ rest)) = none := by
    rw [List.find?_eq_none]
    intro form hform
    have hmem : form.1 ∈ beginnings.map String.ofList := hforms ▸ List.mem_map_of_mem hform
    obtain ⟨b, hb, hform⟩ := List.mem_map.mp hmem
    rw [← hform, String.toList_ofList, isPrefixOf_of_differ (hdiffer b hb)]
    exact Bool.false_ne_true
  have hdrop : (c :: l ++ rest).dropWhile (· == ' ') = c :: l ++ rest :=
    List.dropWhile_cons_of_neg (by simpa using hc)
  rw [hs, String.toList_ofList, readLine?, hdrop, hnone]
  rfl

theorem readLine?_nil : readLine? [] = none := by
  have hnone : forms.find? (·.1.toList.isPrefixOf []) = none := by
    rw [List.find?_eq_none]
    intro form hf
    obtain ⟨d, more, hd, -⟩ := head_of_forms form hf
    simp [hd]
  rw [readLine?, List.dropWhile_nil, hnone]
  rfl

/-! ## Reading lines of code -/

theorem readLine?_indented (depth : Nat) (text : List Char) :
    readLine? (Code.indented depth text) = readLine? text := by
  rw [readLine?, Code.dropWhile_indented, readLine?]

/-- What the lines of code tell. -/
def told (depth : Nat) (code : List Code) : List Declared :=
  (Code.linesOfAll depth code).filterMap readLine?

variable {depth : Nat} {code : List Code}

@[simp] theorem told_nil : told depth [] = [] := rfl

theorem told_append (first second : List Code) :
    told depth (first ++ second) = told depth first ++ told depth second :=
  Code.gathered_append first second

theorem told_line (text : String) :
    told depth (.line text :: code) = (readLine? text.toList).toList ++ told depth code :=
  Code.gathered_line readLine?_indented text

theorem told_blank : told depth (.blank :: code) = told depth code :=
  Code.gathered_blank readLine?_nil

theorem told_block (head tail : String) (body : List Code) :
    told depth (.block head body tail :: code) =
      (readLine? (head.toList ++ ['{'])).toList ++ told (depth + 1) body ++ told depth code :=
  Code.gathered_block readLine?_indented (readLine?_of_head (by decide)) head tail body

end ApiClient.Client
