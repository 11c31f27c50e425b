import ApiClient.Proofs.Json.Layout
import ApiClient.Proofs.Json.RoundTrip
import ApiClient.Proofs.Json.Tree

/-!
# What JSON values are read as

* `ScalarText`, `NestedText`, `IsText`: the texts of a value, with white space and escapes of all
  kinds and any keys;
* `Number.asMember`: the member that makes an object a number;
* `Tree.ReadAs`: what a value is read as;
* `wholeNumber_eq_ok_iff`, `numberString_eq_ok_iff`, `numberMember_eq_ok_iff`: when an object is
  read as a number;
* `reads_value`: every text of a value is taken to its end, and read as said;
* `parse_eq_ok_iff`: the same for whole texts;
* `Tree.exists_readAs_iff`: which values are read at all.
-/

namespace ApiClient.Json

/-! ## Texts -/

/-- The texts of a value that holds no others. -/
inductive ScalarText : Tree → List Char → Prop
  | null : ScalarText .null ['n', 'u', 'l', 'l']
  | yes : ScalarText (.bool true) ['t', 'r', 'u', 'e']
  | no : ScalarText (.bool false) ['f', 'a', 'l', 's', 'e']
  | number (token : Number) : ScalarText (.number token) token.spelled
  | text {content : String} {s : List Char} (h : SpellsString content.toList s) :
      ScalarText (.text content) ('"' :: (s ++ ['"']))

/-- The texts of a list or an object, given those of what is in it. -/
inductive NestedText (Inner : Tree → List Char → Prop) : Tree → List Char → Prop
  | list {items : List Tree} {s : List Char} (inside : ItemsText Inner true items s) :
      NestedText Inner (.list items) ('[' :: s)
  | map {members : List (String × Tree)} {s : List Char}
      (inside : MembersText Inner true members s) : NestedText Inner (.map members) ('\x7b' :: s)

/-- The texts of a value in which at most so many lists and objects are nested. -/
def IsText : Nat → Tree → List Char → Prop
  | 0 => ScalarText
  | n + 1 => fun t s => ScalarText t s ∨ NestedText (IsText n) t s

theorem ScalarText.isText {t : Tree} {s : List Char} (h : ScalarText t s) (n : Nat) :
    IsText n t s := by
  cases n with
  | zero => exact h
  | succ n => exact .inl h

/-! ## What a value is read as -/

/-- The member that makes an object a number. -/
def Number.asMember (x : Number) : String × Tree := (numberKey, .text (String.ofList x.spelled))

/-- What a value is read as. In an object each key counts once, with its last value; but an object
whose first key is `numberKey` is a number or nothing. -/
inductive Tree.ReadAs : Tree → Document → Prop
  | null : ReadAs .null .null
  | bool (value : Bool) : ReadAs (.bool value) (.text (if value then "true" else "false"))
  | number (token : Number) : ReadAs (.number token) (.text (String.ofList token.kept))
  | text (content : String) : ReadAs (.text content) (.text content)
  | list {items : List Tree} {ds : List Document} (h : List.Forall₂ ReadAs items ds) :
      ReadAs (.list items) (.list ds)
  | map {members : List (String × Tree)} {pairs : List (String × Document)}
      (h : Entries.Matched ReadAs members pairs)
      (hfirst : (Entries.keys members).head? ≠ some numberKey) :
      ReadAs (.map members) (.ofPairs pairs)
  | numeral (token : Number) :
      ReadAs (.map [token.asMember]) (.text (String.ofList token.kept))

namespace Tree

variable {members : List (String × Tree)} {d : Document}

theorem readAs_map_iff (hfirst : (Entries.keys members).head? ≠ some numberKey) :
    (map members).ReadAs d ↔
      ∃ pairs, Entries.Matched ReadAs members pairs ∧ d = .ofPairs pairs := by
  constructor
  · intro h
    cases h with
    | map hpairs => exact ⟨_, hpairs, rfl⟩
    | numeral token => exact absurd rfl hfirst
  · rintro ⟨pairs, hpairs, rfl⟩
    exact .map hpairs hfirst

theorem readAs_numeral_iff (hfirst : (Entries.keys members).head? = some numberKey) :
    (map members).ReadAs d ↔
      ∃ token : Number, members = [token.asMember] ∧ d = .text (String.ofList token.kept) := by
  constructor
  · intro h
    cases h with
    | map _ hother => exact absurd hfirst hother
    | numeral token => exact ⟨token, rfl, rfl⟩
  · rintro ⟨token, rfl, rfl⟩
    exact .numeral token

end Tree

/-! ## Numbers written as objects -/

/-- Only the text of a number is read as one, and it is read to its end. -/
theorem wholeNumber_eq_ok_iff {s digits : List Char} :
    wholeNumber s = .ok digits ↔ ∃ token : Number, s = token.spelled ∧ digits = token.kept := by
  constructor
  · intro h
    unfold wholeNumber at h
    dsimp only at h
    split at h
    · next hfirst =>
      cases h
      split at hfirst
      · cases hfirst
      · split_ifs at hfirst
        · obtain ⟨token, hs, hdigits⟩ := number_sound hfirst
          exact ⟨token, by rw [hs, List.append_nil], hdigits⟩
        · cases hfirst
    · cases h
    · cases h
  · rintro ⟨token, rfl, rfl⟩
    obtain ⟨c, s, hs, hc⟩ := token.exists_spelled_eq
    have hnumber : number .endInValue (token.spelled ++ []) = .ok (token.kept, []) :=
      number_spelled token nofun
    rw [List.append_nil, hs] at hnumber
    unfold wholeNumber
    rw [hs]
    dsimp only
    rw [if_pos hc, hnumber]

theorem numberOfString_eq_ok_iff {content digits : String} :
    numberOfString content = .ok digits ↔ ∃ token : Number,
      content = String.ofList token.spelled ∧ digits = String.ofList token.kept := by
  have hwhole : numberOfString content = .ok digits ↔
      ∃ kept, wholeNumber content.toList = .ok kept ∧ digits = String.ofList kept := by
    unfold numberOfString
    cases wholeNumber content.toList with
    | error e => simp
    | ok kept => simp [eq_comm]
  rw [hwhole]
  constructor
  · rintro ⟨_, hkept, rfl⟩
    obtain ⟨token, hspelled, rfl⟩ := wholeNumber_eq_ok_iff.mp hkept
    exact ⟨token, by rw [← hspelled, String.ofList_toList], rfl⟩
  · rintro ⟨token, rfl, rfl⟩
    exact ⟨token.kept, wholeNumber_eq_ok_iff.mpr ⟨token, String.toList_ofList, rfl⟩, rfl⟩

theorem numberString_gap {gap : List Char} (h : IsGap gap) (s : List Char) :
    numberString (gap ++ s) = numberString s := by
  rw [numberString, numberString, skipBlank_append h]

/-- A text of a value begins with a quote if and only if the value is a text. -/
theorem IsText.exists_eq_or {n : Nat} {t : Tree} {s : List Char} (h : IsText n t s) :
    (∃ content k, SpellsString content.toList k ∧ t = .text content ∧ s = '"' :: (k ++ ['"'])) ∨
      (∀ content, t ≠ .text content) ∧
        ∃ c s', s = c :: s' ∧ isBlank c = false ∧ c ≠ ']' ∧ c ≠ '"' := by
  have hscalar : ScalarText t s ∨ ∃ Inner, NestedText Inner t s := by
    cases n with
    | zero => exact .inl h
    | succ n => exact h.imp_right fun h => ⟨_, h⟩
  rcases hscalar with h | ⟨Inner, h⟩
  · cases h with
    | text hk => exact .inl ⟨_, _, hk, rfl, rfl⟩
    | number token =>
      obtain ⟨c, s, hs, hc⟩ := token.exists_spelled_eq
      have hne : ∀ {d : Char}, ¬ (d = '-' ∨ d.isDigit = true) → c ≠ d := fun hd he => hd (he ▸ hc)
      exact .inr ⟨nofun, c, s, hs, isBlank_of_number hc, hne (by decide), hne (by decide)⟩
    | _ => exact .inr ⟨nofun, _, _, rfl, by decide, by decide, by decide⟩
  · cases h with
    | _ => exact .inr ⟨nofun, _, _, rfl, by decide, by decide, by decide⟩

theorem IsText.exists_eq {n : Nat} {t : Tree} {s : List Char} (h : IsText n t s) :
    ∃ c s', s = c :: s' ∧ isBlank c = false ∧ c ≠ ']' := by
  rcases h.exists_eq_or with ⟨content, k, -, -, hs⟩ | ⟨-, c, s', hs, hblank, hclosing, -⟩
  · exact ⟨_, _, hs, by decide, by decide⟩
  · exact ⟨c, s', hs, hblank, hclosing⟩

/-- Only the text of a number is read as the number that is written in an object. -/
theorem numberString_eq_ok_iff {n : Nat} {t : Tree} {gap s rest rest' : List Char}
    {digits : String} (hgap : IsGap gap) (h : IsText n t s) :
    numberString (gap ++ (s ++ rest)) = .ok (digits, rest') ↔ ∃ token : Number,
      t = .text (String.ofList token.spelled) ∧ digits = String.ofList token.kept ∧
        rest' = rest := by
  rw [numberString_gap hgap]
  rcases h.exists_eq_or with ⟨content, k, hk, rfl, rfl⟩ | ⟨ht, c, s', rfl, hblank, -, hquote⟩
  · rw [List.cons_append, List.append_assoc, List.singleton_append, numberString_string hk,
      map_eq_ok_iff]
    simp only [numberOfString_eq_ok_iff, Tree.text.injEq, Prod.mk.injEq]
    constructor
    · rintro ⟨_, ⟨token, hcontent, rfl⟩, rfl, rfl⟩
      exact ⟨token, hcontent, rfl, rfl⟩
    · rintro ⟨token, hcontent, rfl, rfl⟩
      exact ⟨_, ⟨token, hcontent, rfl⟩, rfl, rfl⟩
  · rw [List.cons_append, numberString_of_head hblank hquote]
    constructor
    · exact nofun
    · rintro ⟨token, rfl, -⟩
      exact absurd rfl (ht _)

/-- Behind the text of a number, an object that stands for it has to end. -/
theorem numberMember_eq_ok_iff {n : Nat} {t : Tree} {members : List (String × Tree)}
    {behind inner s more rest rest' : List Char} {d : Document} (hbehind : IsGap behind)
    (hinner : IsGap inner) (h : IsText n t s) (hmore : MembersText (IsText n) false members more) :
    numberMember (behind ++ ':' :: (inner ++ (s ++ (more ++ rest)))) = .ok (d, rest') ↔
      ∃ token : Number, (numberKey, t) :: members = [token.asMember] ∧
        d = .text (String.ofList token.kept) ∧ rest' = rest := by
  have hcolon : colon (behind ++ ':' :: (inner ++ (s ++ (more ++ rest)))) =
      .ok (inner ++ (s ++ (more ++ rest))) := by
    rw [colon, skipBlank_gap hbehind (by decide)]
    rfl
  rw [numberMember, hcolon]
  constructor
  · intro hread
    obtain ⟨_, ⟨⟩, hread⟩ := bind_eq_ok_iff.mp hread
    obtain ⟨⟨digits, s₁⟩, hdigits, hend⟩ := bind_eq_ok_iff.mp hread
    obtain ⟨token, rfl, rfl, rfl⟩ := (numberString_eq_ok_iff hinner h).mp hdigits
    dsimp only at hend
    cases hmore with
    | nil hbefore =>
      rw [List.append_assoc, List.singleton_append, skipBlank_gap hbefore (by decide)] at hend
      cases hend
      exact ⟨token, rfl, rfl, rfl⟩
    | cons hbefore =>
      simp only [List.append_assoc] at hend
      rw [comma, if_neg (by decide), List.singleton_append,
        skipBlank_gap hbefore (by decide)] at hend
      cases hend
  · rintro ⟨token, heq, rfl, rfl⟩
    obtain ⟨hmember, rfl⟩ := List.cons_eq_cons.mp heq
    obtain rfl := (Prod.mk.inj hmember).2
    cases hmore with
    | nil hbefore =>
      refine bind_eq_ok_iff.mpr ⟨_, rfl, bind_eq_ok_iff.mpr
        ⟨_, (numberString_eq_ok_iff hinner h).mpr ⟨token, rfl, rfl, rfl⟩, ?_⟩⟩
      dsimp only
      rw [List.append_assoc, List.singleton_append, skipBlank_gap hbefore (by decide)]
      rfl

theorem afterNumberKey?_members {Text : Tree → List Char → Prop} {members : List (String × Tree)}
    {s : List Char} (h : MembersText Text true members s)
    (hfirst : (Entries.keys members).head? ≠ some numberKey) (rest : List Char) :
    afterNumberKey? (s ++ rest) = none := by
  cases h with
  | nil hbefore =>
    refine afterNumberKey?_of_head ?_
    rw [List.append_assoc, List.singleton_append, skipBlank_gap hbefore (by decide)]
    simp
  | @cons _ key _ _ before between k behind inner s more hbefore hbetween hkey =>
    have hgap : IsGap (before ++ between) := List.forall_mem_append.mpr ⟨hbefore, hbetween⟩
    have hne : ¬ (key == numberKey) = true := fun he => hfirst (congrArg some (beq_iff_eq.mp he))
    have hafter := afterNumberKey?_string hgap hkey
      (behind ++ ':' :: (inner ++ (s ++ (more ++ rest))))
    rw [if_neg hne] at hafter
    simpa [comma] using hafter

/-! ## Values -/

theorem ScalarText.readAs_iff {t : Tree} {s : List Char} (h : ScalarText t s) {d : Document} :
    t.ReadAs d ↔ d = t.document := by
  constructor
  · intro hread
    cases h <;> cases hread <;> rfl
  · rintro rfl
    cases h with
    | null => exact .null
    | yes => exact .bool true
    | no => exact .bool false
    | number token => exact .number token
    | text => exact .text _

theorem ScalarText.read_iff {t : Tree} {s rest rest' : List Char} (h : ScalarText t s)
    (hrest : EndsNumber rest) (n : Nat) {d : Document} :
    value n (s ++ rest) = .ok (d, rest') ↔ t.ReadAs d ∧ rest' = rest := by
  have hvalue : value n (s ++ rest) = .ok (t.document, rest) := by
    cases h with
    | null => exact value_word n rest
    | yes => exact value_true n rest
    | no => exact value_false n rest
    | number token =>
      obtain ⟨c, s, hs, hc⟩ := token.exists_spelled_eq
      have hnumber : Json.number .endInValue (token.spelled ++ rest) = .ok (token.kept, rest) :=
        number_spelled token hrest
      rw [hs, List.cons_append] at hnumber ⊢
      rw [value_number n hc, hnumber]
      rfl
    | text hk =>
      rw [List.cons_append, List.append_assoc, List.singleton_append, value_string n hk]
      rfl
  rw [hvalue, h.readAs_iff]
  simp [eq_comm]

/-- Behind an opening brace a number is read if that is what the first key says, otherwise the
members. -/
theorem value_members {n : Nat} {members : List (String × Tree)} {s rest rest' : List Char}
    {d : Document} (ih : Reads (value n) (IsText n) Tree.ReadAs)
    (h : MembersText (IsText n) true members s) :
    value (n + 1) ('\x7b' :: (s ++ rest)) = .ok (d, rest') ↔
      (Tree.map members).ReadAs d ∧ rest' = rest := by
  by_cases hfirst : (Entries.keys members).head? = some numberKey
  · rw [Tree.readAs_numeral_iff hfirst, value_brace]
    cases h with
    | nil => cases hfirst
    | @cons _ key t members before between k behind inner s more hbefore hbetween hkey hbehind
        hinner hvalue hmore =>
      obtain rfl : key = numberKey := Option.some.inj hfirst
      have hgap : IsGap (before ++ between) := List.forall_mem_append.mpr ⟨hbefore, hbetween⟩
      have hafter := afterNumberKey?_string hgap hkey
        (behind ++ ':' :: (inner ++ (s ++ (more ++ rest))))
      rw [if_pos (beq_self_eq_true _), List.append_assoc] at hafter
      simp only [comma, if_true, List.nil_append, List.append_assoc, List.cons_append]
      rw [hafter]
      dsimp only
      rw [numberMember_eq_ok_iff hbehind hinner hvalue hmore]
      simp only [← and_assoc, exists_and_right]
  · rw [Tree.readAs_map_iff hfirst, value_brace, afterNumberKey?_members h hfirst]
    dsimp only
    rw [bind_eq_ok_iff]
    constructor
    · rintro ⟨⟨entries, s₁⟩, hentries, hend⟩
      obtain ⟨pairs, hpairs, rfl, rfl⟩ := (ih.members h).mp hentries
      cases hend
      exact ⟨⟨pairs, hpairs, rfl⟩, rfl⟩
    · rintro ⟨⟨pairs, hpairs, rfl⟩, rfl⟩
      exact ⟨_, (ih.members h).mpr ⟨pairs, hpairs, rfl, rfl⟩, rfl⟩

theorem NestedText.read_iff {n : Nat} {t : Tree} {s rest rest' : List Char}
    (ih : Reads (value n) (IsText n) Tree.ReadAs) (h : NestedText (IsText n) t s) {d : Document} :
    value (n + 1) (s ++ rest) = .ok (d, rest') ↔ t.ReadAs d ∧ rest' = rest := by
  cases h with
  | list inside =>
    rw [List.cons_append, value_bracket, bind_eq_ok_iff]
    constructor
    · rintro ⟨⟨ds, s₁⟩, hds, hend⟩
      obtain ⟨hitems, rfl⟩ := (ih.elements inside).mp hds
      cases hend
      exact ⟨.list hitems, rfl⟩
    · rintro ⟨⟨⟩, rfl⟩
      exact ⟨_, (ih.elements inside).mpr ⟨‹_›, rfl⟩, rfl⟩
  | map inside => exact value_members ih inside

/-- Every text of a value is taken to its end, and it is read as the value says. -/
theorem reads_value (n : Nat) : Reads (value n) (IsText n) Tree.ReadAs := by
  induction n with
  | zero => exact ⟨value_gap 0, IsText.exists_eq, fun h hrest => ScalarText.read_iff h hrest 0⟩
  | succ n ih =>
    refine ⟨value_gap (n + 1), IsText.exists_eq, fun h hrest => ?_⟩
    rcases h with h | h
    · exact h.read_iff hrest (n + 1)
    · exact h.read_iff ih

/-! ## Whole texts -/

/-- A text of a value, with white space around it, is read as the value says. -/
theorem parse_eq_ok_iff {t : Tree} {s before after : List Char} (h : IsText 127 t s)
    (hbefore : IsGap before) (hafter : IsGap after) {d : Document} :
    Format.json.parse (String.ofList (before ++ (s ++ after))) = .ok d ↔ t.ReadAs d := by
  have hskip := skipBlank_eq_nil hafter
  have hread : ∀ {x rest}, Json.value maxDepth (before ++ (s ++ after)) = .ok (x, rest) ↔
      t.ReadAs x ∧ rest = after := by
    rw [value_gap _ hbefore]
    exact (reads_value 127).read_iff h hafter.endsNumber
  rw [Format.parse, mapError_eq_ok_iff, parse, String.toList_ofList, read, mapError_eq_ok_iff,
    bind_eq_ok_iff]
  constructor
  · rintro ⟨⟨x, rest⟩, hvalue, hend⟩
    obtain ⟨hx, rfl⟩ := hread.mp hvalue
    dsimp only at hend
    rw [hskip] at hend
    cases hend
    exact hx
  · intro hd
    refine ⟨_, hread.mpr ⟨hd, rfl⟩, ?_⟩
    dsimp only
    rw [hskip]
    rfl

/-! ## Values that are read -/

namespace Tree

theorem exists_readAs_map_iff {members : List (String × Tree)} :
    (∃ d, (map members).ReadAs d) ↔ (∀ member ∈ members, ∃ d, member.2.ReadAs d) ∧
      ((Entries.keys members).head? = some numberKey →
        ∃ token : Number, members = [token.asMember]) := by
  by_cases hfirst : (Entries.keys members).head? = some numberKey
  · simp only [readAs_numeral_iff hfirst, hfirst, true_imp_iff]
    constructor
    · rintro ⟨_, token, rfl, rfl⟩
      exact ⟨List.forall_mem_singleton.mpr ⟨_, .text _⟩, token, rfl⟩
    · rintro ⟨-, token, rfl⟩
      exact ⟨_, token, rfl, rfl⟩
  · simp only [readAs_map_iff hfirst, hfirst, false_imp_iff, and_true,
      ← Entries.Matched.exists_iff]
    constructor
    · rintro ⟨_, pairs, hpairs, -⟩
      exact ⟨pairs, hpairs⟩
    · rintro ⟨pairs, hpairs⟩
      exact ⟨_, pairs, hpairs, rfl⟩

/-- A value is read if and only if every object in it whose first key is `numberKey` is a number. -/
theorem exists_readAs_iff {t : Tree} :
    (∃ d, t.ReadAs d) ↔ ∀ members, t.Holds (.map members) →
      (Entries.keys members).head? = some numberKey →
        ∃ token : Number, members = [token.asMember] := by
  induction t using Tree.induction with
  | null => exact ⟨fun _ => nofun, fun _ => ⟨_, .null⟩⟩
  | bool value => exact ⟨fun _ => nofun, fun _ => ⟨_, .bool value⟩⟩
  | number token => exact ⟨fun _ => nofun, fun _ => ⟨_, .number token⟩⟩
  | text content => exact ⟨fun _ => nofun, fun _ => ⟨_, .text content⟩⟩
  | list items ih =>
    have hread : (∃ d, (list items).ReadAs d) ↔ ∀ t ∈ items, ∃ d, t.ReadAs d := by
      rw [← exists_forall₂_iff]
      constructor
      · rintro ⟨_, ⟨⟩⟩
        exact ⟨_, ‹_›⟩
      · rintro ⟨ds, hds⟩
        exact ⟨_, .list hds⟩
    rw [hread]
    constructor
    · rintro h members (_ | ⟨ht, inside⟩)
      exact (ih _ ht).mp (h _ ht) members inside
    · exact fun h t ht => (ih t ht).mpr fun members inside => h members (.item ht inside)
  | map members ih =>
    rw [exists_readAs_map_iff]
    constructor
    · rintro ⟨hvalues, hself⟩ inner hinner
      cases hinner with
      | self => exact hself
      | value hmember inside => exact (ih _ hmember).mp (hvalues _ hmember) inner inside
    · intro h
      exact ⟨fun member hmember => (ih member hmember).mpr fun inner inside =>
        h inner (.value hmember inside), h members (.self _)⟩

end Tree

end ApiClient.Json
