import ApiClient.Proofs.Json.Values

/-!
# The grammar of JSON

Texts with white space and escapes of all kinds, and where their numbers go.

* `Spells`, `SpellsItems`, `SpellsMembers`: the texts of a value in which no object is a number, and
  of what is left in a list or an object;
* `Spells.isText`, `Spells.readAs`: they are texts of the value, and it is read as its document;
* `parse_spelled`: a text of a value is read as its document;
* `parse_spelled_numbers`: every number is found in its place, with the text that is kept of it.
-/

namespace ApiClient.Json

/-! ## Texts -/

mutual

/-- The texts of a value in which at most so many lists and objects are nested. -/
inductive Spells : Nat → Tree → List Char → Prop
  | null {n : Nat} : Spells n .null ['n', 'u', 'l', 'l']
  | yes {n : Nat} : Spells n (.bool true) ['t', 'r', 'u', 'e']
  | no {n : Nat} : Spells n (.bool false) ['f', 'a', 'l', 's', 'e']
  | number {n : Nat} (token : Number) : Spells n (.number token) token.spelled
  | text {n : Nat} {content : String} {s : List Char} (h : SpellsString content.toList s) :
      Spells n (.text content) ('"' :: (s ++ ['"']))
  | list {n : Nat} {items : List Tree} {s : List Char} (inside : SpellsItems n true items s) :
      Spells (n + 1) (.list items) ('[' :: s)
  | map {n : Nat} {members : List (String × Tree)} {s : List Char}
      (inside : SpellsMembers n true members s)
      (hnumber : (Entries.keys members).head? ≠ some numberKey) :
      Spells (n + 1) (.map members) ('\x7b' :: s)

/-- The texts of the items that are left in a list, with the closing bracket. -/
inductive SpellsItems : Nat → Bool → List Tree → List Char → Prop
  | nil {n : Nat} {first : Bool} {before : List Char} (hbefore : IsGap before) :
      SpellsItems n first [] (before ++ [']'])
  | cons {n : Nat} {first : Bool} {t : Tree} {items : List Tree} {before between s more : List Char}
      (hbefore : IsGap before) (hbetween : IsGap between) (item : Spells n t s)
      (rest : SpellsItems n false items more) :
      SpellsItems n first (t :: items) (before ++ (comma first ++ (between ++ (s ++ more))))

/-- The texts of the members that are left in an object, with the closing brace. -/
inductive SpellsMembers : Nat → Bool → List (String × Tree) → List Char → Prop
  | nil {n : Nat} {first : Bool} {before : List Char} (hbefore : IsGap before) :
      SpellsMembers n first [] (before ++ ['\x7d'])
  | cons {n : Nat} {first : Bool} {key : String} {t : Tree} {members : List (String × Tree)}
      {before between k behind inner s more : List Char} (hbefore : IsGap before)
      (hbetween : IsGap between) (hkey : SpellsString key.toList k) (hbehind : IsGap behind)
      (hinner : IsGap inner) (value : Spells n t s) (rest : SpellsMembers n false members more) :
      SpellsMembers n first ((key, t) :: members) (before ++ (comma first ++
        (between ++ '"' :: (k ++ '"' :: (behind ++ ':' :: (inner ++ (s ++ more)))))))

end

/-! ## What they are read as -/

mutual

theorem Spells.isText {n : Nat} {t : Tree} {s : List Char} : Spells n t s → IsText n t s
  | .null => ScalarText.null.isText n
  | .yes => ScalarText.yes.isText n
  | .no => ScalarText.no.isText n
  | .number token => (ScalarText.number token).isText n
  | .text h => (ScalarText.text h).isText n
  | .list inside => .inr (.list inside.itemsText)
  | .map inside _ => .inr (.map inside.membersText)

theorem SpellsItems.itemsText {n : Nat} {first : Bool} {items : List Tree} {s : List Char} :
    SpellsItems n first items s → ItemsText (IsText n) first items s
  | .nil hbefore => .nil hbefore
  | .cons hbefore hbetween item rest => .cons hbefore hbetween item.isText rest.itemsText

theorem SpellsMembers.membersText {n : Nat} {first : Bool} {members : List (String × Tree)}
    {s : List Char} : SpellsMembers n first members s → MembersText (IsText n) first members s
  | .nil hbefore => .nil hbefore
  | .cons hbefore hbetween hkey hbehind hinner value rest =>
    .cons hbefore hbetween hkey hbehind hinner value.isText rest.membersText

end

mutual

theorem Spells.readAs {n : Nat} {t : Tree} {s : List Char} : Spells n t s → t.ReadAs t.document
  | .null => .null
  | .yes => .bool true
  | .no => .bool false
  | .number token => .number token
  | .text _ => .text _
  | .list inside => .list inside.forall₂_readAs
  | .map inside hnumber => .map inside.matched_readAs hnumber

theorem SpellsItems.forall₂_readAs {n : Nat} {first : Bool} {items : List Tree} {s : List Char} :
    SpellsItems n first items s → List.Forall₂ Tree.ReadAs items (Tree.documents items)
  | .nil _ => .nil
  | .cons _ _ item rest => .cons item.readAs rest.forall₂_readAs

theorem SpellsMembers.matched_readAs {n : Nat} {first : Bool} {members : List (String × Tree)}
    {s : List Char} :
    SpellsMembers n first members s → Entries.Matched Tree.ReadAs members (Tree.pairs members)
  | .nil _ => .nil
  | .cons _ _ _ _ _ value rest => .cons value.readAs rest.matched_readAs

end

/-! ## Whole texts -/

/-- A text of a value, with white space around it, is read as its document. -/
theorem parse_spelled {t : Tree} {s before after : List Char} (h : Spells 127 t s)
    (hbefore : IsGap before) (hafter : IsGap after) :
    Format.json.parse (String.ofList (before ++ (s ++ after))) = .ok t.document :=
  (parse_eq_ok_iff h.isText hbefore hafter).mpr h.readAs

/-- Every number of a text is found in its place, with the text that is written unless it has an
exponent without a sign or with a capital letter. -/
theorem parse_spelled_numbers {t : Tree} {s before after : List Char} (h : Spells 127 t s)
    (hbefore : IsGap before) (hafter : IsGap after) :
    ∃ d, Format.json.parse (String.ofList (before ++ (s ++ after))) = .ok d ∧
      ∀ steps token, t.at? steps = some (.number token) →
        d.at? steps = some (.text (String.ofList token.kept)) ∧
          (d.at? steps = some (.text (String.ofList token.spelled)) ↔
            ∀ e ∈ token.exponent?, e.letter = 'e' ∧ e.sign? ≠ none) := by
  refine ⟨t.document, parse_spelled h hbefore hafter, fun steps token ht => ?_⟩
  have hat : t.document.at? steps = some (.text (String.ofList token.kept)) := by
    rw [at?_document, ht]
    rfl
  refine ⟨hat, ?_⟩
  rw [hat, ← Number.kept_eq_spelled_iff]
  constructor
  · intro heq
    injection heq with heq
    injection heq with heq
    exact String.ofList_injective heq
  · exact fun heq => by rw [heq]

/-- Numbers behind a key that is repeated, one of them with an exponent that is written otherwise
than it is kept. -/
theorem parse_spelled_numbers_list : ∃ minus large : Number,
    Spells 127 (.map [("a", .null), ("a", .list [.number minus, .number large])])
        "\x7b\"a\":null , \"\\u0061\" : [-0,\t12.50E7 ]\x7d".toList ∧
      IsGap [] ∧ IsGap ['\n'] ∧
      minus.spelled = "-0".toList ∧ large.spelled = "12.50E7".toList ∧
      ∃ d, Format.json.parse "\x7b\"a\":null , \"\\u0061\" : [-0,\t12.50E7 ]\x7d\n" = .ok d ∧
        d.at? [.key "a", .item 0] = some (.text "-0") ∧
        d.at? [.key "a", .item 1] = some (.text "12.50e+7") := by
  let minus : Number := ⟨true, ['0'], none, none, by decide, by decide, by decide⟩
  let large : Number :=
    ⟨false, ['1', '2'], some ['5', '0'], some ⟨'E', none, ['7'], by decide, by simp, by decide⟩,
      by decide, by decide, by decide⟩
  have hitems : SpellsItems 125 true [.number minus, .number large] "-0,\t12.50E7 ]".toList :=
    @SpellsItems.cons _ _ _ _ [] [] _ _ isGap_nil isGap_nil (.number minus)
      (@SpellsItems.cons _ _ _ _ [] ['\t'] _ _ isGap_nil (by decide) (.number large)
        (@SpellsItems.nil _ _ [' '] (by decide)))
  have hplain : SpellsString "a".toList ['a'] := spells_escaped ['a']
  have hcode : SpellsString "a".toList "\\u0061".toList :=
    .cons (@SpellsChar.code '0' '0' '6' '1' 0x61 (by decide) rfl rfl) .nil
  have hspells : Spells 127 (.map [("a", .null), ("a", .list [.number minus, .number large])])
      "\x7b\"a\":null , \"\\u0061\" : [-0,\t12.50E7 ]\x7d".toList :=
    .map (@SpellsMembers.cons _ _ _ _ _ [] [] _ [] [] _ _ isGap_nil isGap_nil hplain isGap_nil
      isGap_nil .null
      (@SpellsMembers.cons _ _ _ _ _ [' '] [' '] _ [' '] [' '] _ _ (by decide) (by decide) hcode
        (by decide) (by decide) (.list hitems) (@SpellsMembers.nil _ _ [] isGap_nil))) (by decide)
  have hend : IsGap ['\n'] := by decide
  obtain ⟨d, hd, hnumbers⟩ := parse_spelled_numbers hspells isGap_nil hend
  exact ⟨minus, large, hspells, isGap_nil, hend, rfl, rfl, d, hd,
    (hnumbers [.key "a", .item 0] minus rfl).1, (hnumbers [.key "a", .item 1] large rfl).1⟩

/-- A number alone does not keep a capital letter of its exponent, nor that this has no sign. -/
theorem parse_number_respelled : ∃ token : Number, token.spelled = "1E5".toList ∧
    Format.json.parse (String.ofList token.spelled) = .ok (.text "1e+5") ∧
    Format.json.parse (String.ofList token.spelled) ≠
      .ok (.text (String.ofList token.spelled)) := by
  let token : Number :=
    ⟨false, ['1'], none, some ⟨'E', none, ['5'], by decide, by simp, by decide⟩, by decide,
      by decide, by decide⟩
  have hparse := parse_spelled (@Spells.number 127 token) isGap_nil isGap_nil
  rw [List.nil_append, List.append_nil] at hparse
  refine ⟨token, rfl, hparse, fun h => ?_⟩
  rw [hparse] at h
  injection h with h
  injection h with h
  exact absurd (Number.kept_eq_spelled_iff.mp (String.ofList_injective h) _ rfl).2 (by simp)

end ApiClient.Json
