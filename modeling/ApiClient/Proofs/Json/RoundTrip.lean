import ApiClient.Format.Reading
import ApiClient.Proofs.Json.Sequences

/-!
# Compact texts are read back

* `value_word`, `value_true`, `value_false`, `value_number`, `value_string`, `value_bracket`,
  `value_brace`: what the first character of a value decides, behind a `value_gap`;
* `WellKeyed`: documents whose maps have distinct keys, none of them the key of a number at first;
* `value_render`: the text of such a document is read as that document, within the bound;
* `nesting_le_of_value`: no text of a document is read if that is nested deeper than the bound;
* `parse_rendered`: both for whole texts.
-/

namespace ApiClient.Json

open Document

/-! ## One value -/

theorem value_word (n : Nat) (rest : List Char) :
    value n ('n' :: 'u' :: 'l' :: 'l' :: rest) = .ok (.null, rest) := by
  cases n <;> rfl

theorem value_true (n : Nat) (rest : List Char) :
    value n ('t' :: 'r' :: 'u' :: 'e' :: rest) = .ok (.text "true", rest) := by
  cases n <;> rfl

theorem value_false (n : Nat) (rest : List Char) :
    value n ('f' :: 'a' :: 'l' :: 's' :: 'e' :: rest) = .ok (.text "false", rest) := by
  cases n <;> rfl

theorem isBlank_of_number {c : Char} (h : c = '-' ∨ c.isDigit = true) : isBlank c = false := by
  by_contra hblank
  rcases eq_of_isBlank (Bool.not_eq_false _ ▸ hblank) with rfl | rfl | rfl | rfl
  all_goals
    revert h
    decide

theorem value_number (n : Nat) {c : Char} (h : c = '-' ∨ c.isDigit = true) (s : List Char) :
    value n (c :: s) =
      (fun p => (.text (String.ofList p.1), p.2)) <$> number .endInValue (c :: s) := by
  have hne : ∀ {d : Char}, ¬ (d = '-' ∨ d.isDigit = true) → c ≠ d := fun hd he => hd (he ▸ h)
  rw [value, skipBlank_of_head (isBlank_of_number h)]
  dsimp only
  rw [if_neg (hne (by decide)), if_neg (hne (by decide)), if_neg (hne (by decide)), if_pos h]
  exact (map_eq_pure_bind _ _).symm

/-- A string is a value, however its characters are written. -/
theorem value_string (n : Nat) {content : String} {s : List Char}
    (h : SpellsString content.toList s) (rest : List Char) :
    value n ('"' :: (s ++ '"' :: rest)) = .ok (.text content, rest) := by
  have hvalue : ∀ s, value n ('"' :: s) = (string .text s).map fun p => (.text p.1, p.2) :=
    fun s => by
      rw [value]
      change (string .text s >>= fun p => pure (Document.text p.1, p.2)) = _
      cases string .text s <;> rfl
  rw [hvalue, string_spelled h]
  rfl

theorem value_quote (n : Nat) (content : String) (rest : List Char) :
    value n (quote content ++ rest) = .ok (.text content, rest) := by
  rw [quote, List.cons_append, List.append_assoc, List.singleton_append]
  exact value_string n (spells_escaped content.toList) rest

/-- White space in front of a value is passed over. -/
theorem value_gap (n : Nat) {gap : List Char} (h : IsGap gap) (s : List Char) :
    value n (gap ++ s) = value n s := by
  rw [value, value, skipBlank_append h]

theorem value_bracket_zero (s : List Char) : value 0 ('[' :: s) = stop .tooDeep ('[' :: s) := rfl

theorem value_bracket (n : Nat) (s : List Char) :
    value (n + 1) ('[' :: s) = (do
      let (items, s) ← elements (value n) s
      return (.list items, s)) := rfl

theorem value_brace_zero (s : List Char) :
    value 0 ('\x7b' :: s) = stop .tooDeep ('\x7b' :: s) := rfl

theorem value_brace (n : Nat) (s : List Char) :
    value (n + 1) ('\x7b' :: s) =
      match afterNumberKey? s with
      | some s => numberMember s
      | none => do
        let (entries, s) ← members .text (inserting (value n)) [] s
        return (.map entries, s) := rfl

/-! ## Numbers written as objects -/

theorem afterNumberKey?_string {gap k : List Char} (h : IsGap gap) {key : String}
    (hkey : SpellsString key.toList k) (s : List Char) :
    afterNumberKey? (gap ++ '"' :: (k ++ '"' :: s)) =
      if key == numberKey then some s else none := by
  rw [afterNumberKey?, skipBlank_gap h (by decide)]
  simp only [string_spelled hkey]

theorem afterNumberKey?_quote (key : String) (s : List Char) :
    afterNumberKey? (quote key ++ s) = if key == numberKey then some s else none := by
  rw [quote, List.cons_append, List.append_assoc, List.singleton_append]
  exact afterNumberKey?_string isGap_nil (spells_escaped key.toList) s

theorem afterNumberKey?_of_head {s : List Char} (h : (skipBlank s).head? ≠ some '"') :
    afterNumberKey? s = none := by
  rw [afterNumberKey?]
  split
  · next heq => exact absurd (congrArg List.head? heq) h
  · rfl

theorem eq_cons_of_afterNumberKey? {entries : List (String × Document)} {rest after : List Char}
    (h : afterNumberKey? (entriesText true entries ++ rest) = some after) :
    ∃ key d more, entries = (key, d) :: more ∧
      after = ':' :: (render d ++ (renderEntries more ++ rest)) := by
  cases entries with
  | nil => cases h
  | cons entry more =>
    rw [entriesText, comma, if_pos rfl, List.nil_append, List.append_assoc, List.cons_append,
      List.append_assoc, afterNumberKey?_quote] at h
    split at h
    · exact ⟨_, _, _, rfl, (Option.some.inj h).symm⟩
    · cases h

theorem numberString_of_head {c : Char} (hblank : isBlank c = false) (h : c ≠ '"')
    (s : List Char) :
    numberString (c :: s) = .error (wrongType .text "string containing a number" (c :: s)) := by
  rw [numberString, skipBlank_of_head hblank]
  split
  · next heq => exact absurd (List.cons_eq_cons.mp heq).1 h
  · rfl

theorem numberString_string {content : String} {k : List Char}
    (h : SpellsString content.toList k) (s : List Char) :
    numberString ('"' :: (k ++ '"' :: s)) = (·, s) <$> numberOfString content := by
  rw [numberString, skipBlank_of_head (by decide)]
  simp only [string_spelled h]
  change (numberOfString content >>= fun digits => pure (digits, s)) = _
  cases numberOfString content <;> rfl

theorem numberString_quote (content : String) (s : List Char) :
    numberString (quote content ++ s) = (·, s) <$> numberOfString content := by
  rw [quote, List.cons_append, List.append_assoc, List.singleton_append]
  exact numberString_string (spells_escaped content.toList) s

/-- Only a text is read as the number that is written in an object. -/
theorem nesting_eq_of_numberString {d : Document} {rest rest' : List Char} {digits : String}
    (h : numberString (render d ++ rest) = .ok (digits, rest')) : rest' = rest ∧ d.nesting = 0 := by
  have herror : ∀ {c : Char} {s : List Char}, isBlank c = false → c ≠ '"' →
      numberString (c :: s) ≠ .ok (digits, rest') := by
    intro c s hblank hc h
    rw [numberString_of_head hblank hc] at h
    cases h
  cases d with
  | null => exact absurd h (herror (by decide) (by decide))
  | text content =>
    rw [render, numberString_quote] at h
    obtain ⟨digits', -, hend⟩ := map_eq_ok_iff.mp h
    cases hend
    exact ⟨rfl, rfl⟩
  | list items =>
    rw [render_list] at h
    exact absurd h (herror (by decide) (by decide))
  | map entries =>
    rw [render_map] at h
    exact absurd h (herror (by decide) (by decide))

/-- An object that is a number holds nothing else. -/
theorem eq_nil_of_numberMember {d x : Document} {entries : List (String × Document)}
    {rest rest' : List Char}
    (h : numberMember (':' :: (render d ++ (renderEntries entries ++ rest))) = .ok (x, rest')) :
    rest' = rest ∧ d.nesting = 0 ∧ entries = [] := by
  rw [numberMember] at h
  obtain ⟨s, hs, h⟩ := bind_eq_ok_iff.mp h
  cases hs
  obtain ⟨⟨digits, s⟩, hdigits, h⟩ := bind_eq_ok_iff.mp h
  obtain ⟨rfl, hnesting⟩ := nesting_eq_of_numberString hdigits
  cases entries with
  | nil =>
    cases h
    exact ⟨rfl, hnesting, rfl⟩
  | cons entry entries => cases h

/-! ## Whole values -/

/-- The keys of every map are distinct, and the first of them is not that of a number. -/
inductive WellKeyed : Document → Prop
  | null : WellKeyed .null
  | text (content : String) : WellKeyed (.text content)
  | list {items : List Document} (h : ∀ d ∈ items, WellKeyed d) : WellKeyed (.list items)
  | map {entries : List (String × Document)} (hkeys : (Entries.keys entries).Nodup)
      (hnumber : (Entries.keys entries).head? ≠ some numberKey)
      (h : ∀ entry ∈ entries, WellKeyed entry.2) : WellKeyed (.map entries)

theorem afterNumberKey?_entriesText {entries : List (String × Document)}
    (h : (Entries.keys entries).head? ≠ some numberKey) (rest : List Char) :
    afterNumberKey? (entriesText true entries ++ rest) = none := by
  cases entries with
  | nil => rfl
  | cons entry entries =>
    have hkey : ¬ (entry.1 == numberKey) = true :=
      fun hkey => h (congrArg some (beq_iff_eq.mp hkey))
    rw [entriesText, comma, if_pos rfl, List.nil_append, List.append_assoc, afterNumberKey?_quote,
      if_neg hkey]

/-- The text of a document is read as that document. -/
theorem value_render {d : Document} (h : WellKeyed d) {n : Nat} (hn : d.nesting ≤ n)
    (rest : List Char) : value n (render d ++ rest) = .ok (d, rest) := by
  induction h generalizing n rest with
  | null => exact value_word n rest
  | text content => exact value_quote n content rest
  | list _ ih =>
    obtain ⟨n, rfl⟩ := Nat.exists_eq_add_one.mpr (Nat.zero_lt_of_lt hn)
    have hitems := nesting_list_le_iff.mp hn
    rw [render_list, List.cons_append, value_bracket,
      elements_itemsText (fun d hd => ih d hd (hitems d hd))]
    rfl
  | map hkeys hnumber _ ih =>
    obtain ⟨n, rfl⟩ := Nat.exists_eq_add_one.mpr (Nat.zero_lt_of_lt hn)
    have hentries := nesting_map_le_iff.mp hn
    rw [render_map, List.cons_append, value_brace, afterNumberKey?_entriesText hnumber]
    dsimp only
    rw [members_entriesText (fun entry he => ih entry he (hentries entry he)) hkeys]
    rfl

/-- No text is read of a document that is nested too deep, whatever its keys are. -/
theorem nesting_le_of_value {d x : Document} {n : Nat} {rest rest' : List Char}
    (h : value n (render d ++ rest) = .ok (x, rest')) : rest' = rest ∧ d.nesting ≤ n := by
  induction d using Document.induction generalizing n x rest rest' with
  | null =>
    rw [render] at h
    cases (value_word n rest).symm.trans h
    exact ⟨rfl, Nat.zero_le n⟩
  | text content =>
    rw [render, value_quote] at h
    cases h
    exact ⟨rfl, Nat.zero_le n⟩
  | list items ih =>
    rw [render_list, List.cons_append] at h
    cases n with
    | zero => cases (value_bracket_zero _).symm.trans h
    | succ n =>
      rw [value_bracket] at h
      obtain ⟨⟨xs, s⟩, hitems, hend⟩ := bind_eq_ok_iff.mp h
      obtain ⟨rfl, hnesting⟩ := nesting_le_of_elementsIn (fun d hd _ _ _ => ih d hd) hitems
      cases hend
      exact ⟨rfl, nesting_list_le_iff.mpr hnesting⟩
  | map entries ih =>
    rw [render_map, List.cons_append] at h
    cases n with
    | zero => cases (value_brace_zero _).symm.trans h
    | succ n =>
      rw [value_brace] at h
      -- an object that stands for a number is not entered, but it nests nothing either
      cases hnumber : afterNumberKey? (entriesText true entries ++ rest) with
      | none =>
        rw [hnumber] at h
        obtain ⟨⟨after, s⟩, hentries, hend⟩ := bind_eq_ok_iff.mp h
        obtain ⟨rfl, hnesting⟩ :=
          nesting_le_of_membersIn (fun entry he _ _ _ => ih entry he) hentries
        cases hend
        exact ⟨rfl, nesting_map_le_iff.mpr hnesting⟩
      | some after =>
        obtain ⟨key, d, more, rfl, rfl⟩ := eq_cons_of_afterNumberKey? hnumber
        rw [hnumber] at h
        obtain ⟨rfl, hnesting, rfl⟩ := eq_nil_of_numberMember h
        refine ⟨rfl, nesting_map_le_iff.mpr fun entry he => ?_⟩
        obtain rfl := List.mem_singleton.mp he
        exact Nat.le_trans (Nat.le_of_eq hnesting) (Nat.zero_le n)

/-! ## Whole texts -/

theorem parse_eq_ok_of_value {text : List Char} {d : Document}
    (h : value maxDepth text = .ok (d, [])) : parse (String.ofList text) = .ok d := by
  rw [parse, String.toList_ofList, read, h]
  rfl

theorem exists_of_parse_eq_ok {text : List Char} {d : Document}
    (h : parse (String.ofList text) = .ok d) :
    ∃ x rest, value maxDepth text = .ok (x, rest) := by
  rw [parse, String.toList_ofList, read, mapError_eq_ok_iff] at h
  obtain ⟨⟨x, rest⟩, hvalue, -⟩ := bind_eq_ok_iff.mp h
  exact ⟨x, rest, hvalue⟩

/-- The compact text of a document is read as that document, with all entries in their places, up
to 127 lists and maps around each other. Beyond that no text is read. -/
theorem parse_rendered (d : Document) :
    (WellKeyed d → d.nesting ≤ 127 → Format.json.parse (String.ofList (render d)) = .ok d) ∧
      (127 < d.nesting →
        ∃ error, Format.json.parse (String.ofList (render d)) = .error (.json error)) := by
  constructor
  · intro hkeys hnesting
    have hvalue := value_render hkeys hnesting []
    rw [List.append_nil] at hvalue
    rw [Format.parse, parse_eq_ok_of_value hvalue]
    rfl
  · intro hnesting
    cases hparse : parse (String.ofList (render d)) with
    | error error =>
      refine ⟨error, ?_⟩
      rw [Format.parse, hparse]
      rfl
    | ok x =>
      obtain ⟨x, rest, hvalue⟩ := exists_of_parse_eq_ok hparse
      rw [← List.append_nil (render d)] at hvalue
      exact absurd (nesting_le_of_value hvalue).2 (Nat.not_le.mpr hnesting)

/-- A map whose keys need escapes, the key of a number behind another one, and as many lists around
a document as are too many. -/
theorem parse_rendered_nested :
    Format.json.parse (String.ofList (render (.map [("\"\\\n", .list []),
        (numberKey, .map [("\x01é", .text "\x7f/"), ("", .null)])]))) =
      .ok (.map [("\"\\\n", .list []),
        (numberKey, .map [("\x01é", .text "\x7f/"), ("", .null)])]) ∧
      127 < (Nat.repeat (fun d => .list [d]) 128 Document.null).nesting ∧
      ∃ error, Format.json.parse
        (String.ofList (render (Nat.repeat (fun d => .list [d]) 128 .null))) =
          .error (.json error) := by
  have hkeyed : WellKeyed (.map [("\"\\\n", .list []),
      (numberKey, .map [("\x01é", .text "\x7f/"), ("", .null)])]) := by
    refine .map (by decide) (by decide) (List.forall_mem_cons.mpr ⟨.list (List.forall_mem_nil _),
      List.forall_mem_singleton.mpr (.map (by decide) (by decide) ?_)⟩)
    exact List.forall_mem_cons.mpr ⟨.text _, List.forall_mem_singleton.mpr .null⟩
  have hdeep : 127 < (Nat.repeat (fun d => .list [d]) 128 Document.null).nesting := by
    decide +kernel
  exact ⟨(parse_rendered _).1 hkeyed (by decide +kernel), hdeep, (parse_rendered _).2 hdeep⟩

end ApiClient.Json
