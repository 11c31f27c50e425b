import ApiClient.Proofs.Results
import ApiClient.Proofs.Text.Pieces
import ApiClient.Proofs.Xml.Cutting
import ApiClient.Proofs.Xml.Escaping
import ApiClient.Proofs.Xml.Rendering

/-!
# Tags of a rendering

* `isName_iff`, `isNameChar_of_mem`: what a name is made of;
* `closed_rendering`: a rendered tag is cut where it ends;
* `readAttribute_rendering`, `attributes_rendering`: rendered attributes are read back;
* `ofContent_rendering`, `getLast_rendering`: a rendered tag has its name, and does not end in a
  slash.
-/

namespace ApiClient.Xml

open Text (ne_of_test takeWhile_append_cons dropWhile_append_cons takeWhile_ne_append
  dropWhile_ne_append)

/-! ## Names -/

theorem isName_iff {name : String} :
    isName name = true ↔
      ∃ c s, name.toList = c :: s ∧ c.isAlpha = true ∧ ∀ d ∈ s, isNameChar d = true := by
  unfold isName
  cases h : name.toList with
  | nil => simp
  | cons c s => simp [Bool.and_eq_true, List.all_eq_true]

theorem isNameChar_of_isAlpha {c : Char} (h : c.isAlpha = true) : isNameChar c = true := by
  simp [isNameChar, Char.isAlphanum, h]

theorem isNameChar_of_mem {name : String} (h : isName name = true) :
    ∀ c ∈ name.toList, isNameChar c = true := by
  obtain ⟨c, s, hs, hc, hr⟩ := isName_iff.mp h
  intro d hd
  rw [hs] at hd
  rcases List.mem_cons.mp hd with rfl | hd
  · exact isNameChar_of_isAlpha hc
  · exact hr d hd

theorem isBlank_iff {c : Char} : isBlank c = true ↔ c = ' ' ∨ c = '\t' ∨ c = '\r' ∨ c = '\n' := by
  simp [isBlank, or_assoc]

theorem isBlank_of_isNameChar {c : Char} (h : isNameChar c = true) : isBlank c = false := by
  rw [← Bool.not_eq_true, isBlank_iff]
  rintro (rfl | rfl | rfl | rfl) <;> revert h <;> decide

/-! ## Where a tag ends -/

theorem closed_name {s : List Char} (h : ∀ c ∈ s, isNameChar c = true) : Markup.Closed s :=
  Markup.closed_plain fun c hc =>
    ⟨ne_of_test (h c hc) (by decide), ne_of_test (h c hc) (by decide),
      ne_of_test (h c hc) (by decide)⟩

theorem closed_gap {s : List Char} (h : ∀ c ∈ s, isBlank c = true) : Markup.Closed s :=
  Markup.closed_plain fun c hc =>
    ⟨ne_of_test (h c hc) (by decide), ne_of_test (h c hc) (by decide),
      ne_of_test (h c hc) (by decide)⟩

theorem quote_not_mem_escape {quote : Char} (hq : quote = '"' ∨ quote = '\'') (s : List Char) :
    quote ∉ escape s :=
  not_mem_escape (by rcases hq with rfl | rfl <;> simp) s

theorem closed_attributes {attributes : List (String × String)} {a : List Char}
    (h : AttributesRendering attributes a) (hn : ∀ x ∈ attributes, isName x.1 = true) :
    Markup.Closed a := by
  induction h with
  | nil hgap => exact closed_gap hgap
  | @cons gap s quote name value attributes hne hgap hq rest ih =>
    have hname := closed_name (isNameChar_of_mem (hn (name, value) List.mem_cons_self))
    have heq : Markup.Closed ['='] := Markup.closed_plain (by simp)
    have hvalue := Markup.closed_quoted hq (quote_not_mem_escape hq value.toList)
    have hrest := ih fun x hx => hn x (List.mem_cons_of_mem _ hx)
    have hall := (closed_gap hgap).append (hname.append (heq.append (hvalue.append hrest)))
    simpa using hall

/-! ## Attributes -/

theorem skipBlank_gap {gap : List Char} (hgap : ∀ c ∈ gap, isBlank c = true) (s : List Char) :
    Tag.skipBlank (gap ++ s) = Tag.skipBlank s := by
  simp only [Tag.skipBlank, List.dropWhile_append_of_pos hgap]

theorem skipBlank_cons {c : Char} (hc : isBlank c = false) (s : List Char) :
    Tag.skipBlank (c :: s) = c :: s := by
  simp [Tag.skipBlank, hc]

theorem readValue_quoted (size : Nat) {quote : Char} (hq : quote = '"' ∨ quote = '\'')
    {value : List Char} (hv : quote ∉ value) (rest : List Char) :
    Tag.readValue size (quote :: (value ++ quote :: rest)) = .ok (value, rest) := by
  have hb : isBlank quote = false := by rcases hq with rfl | rfl <;> decide
  rw [Tag.readValue, skipBlank_cons hb]
  simp only [hq, if_true]
  rw [dropWhile_ne_append hv, takeWhile_ne_append hv]

/-- A rendered attribute is read back, unless its key has been seen. -/
theorem readAttribute_rendering (size : Nat) {seen : List (List Char × Nat)} {c quote : Char}
    {key value : List Char} (hkey : ∀ d ∈ key, isNameChar d = true)
    (hq : quote = '"' ∨ quote = '\'') (hv : quote ∉ value) (hs : seen.lookup (c :: key) = none)
    (rest : List Char) :
    ∃ position, Tag.readAttribute size seen c
        (key ++ '=' :: quote :: (value ++ quote :: rest)) =
      .ok { position, key := c :: key, value, rest } := by
  have hin : ∀ d ∈ key, (d != '=' && !isBlank d) = true := by
    intro d hd
    have h₁ : d ≠ '=' := ne_of_test (hkey d hd) (by decide)
    simp [h₁, isBlank_of_isNameChar (hkey d hd)]
  refine ⟨size - Text.width (c :: (key ++ '=' :: quote :: (value ++ quote :: rest))), ?_⟩
  rw [Tag.readAttribute]
  simp only [takeWhile_append_cons hin (c := '=') (by decide),
    dropWhile_append_cons hin (c := '=') (by decide), skipBlank_cons (c := '=') (by decide),
    readValue_quoted size hq hv, hs]
  rfl

theorem attributesIn_gap (size rounds : Nat) (seen : List (List Char × Nat)) {gap : List Char}
    (hgap : ∀ c ∈ gap, isBlank c = true) : Tag.attributesIn size rounds seen gap = .ok [] := by
  have hs : Tag.skipBlank gap = [] := List.dropWhile_eq_nil_iff.mpr hgap
  cases rounds with
  | zero => rfl
  | succ rounds => simp only [Tag.attributesIn, hs]

theorem attributesIn_rendering (size : Nat) {attributes : List (String × String)} {a : List Char}
    (h : AttributesRendering attributes a) (hw : AttributesWellFormed attributes) {rounds : Nat}
    (hr : a.length ≤ rounds) {seen : List (List Char × Nat)}
    (hs : ∀ x ∈ attributes, seen.lookup x.1.toList = none) :
    Tag.attributesIn size rounds seen a = .ok attributes := by
  induction h generalizing rounds seen with
  | nil hgap => exact attributesIn_gap size rounds seen hgap
  | @cons gap s quote name value attributes hne hgap hq rest ih =>
    obtain ⟨hn, hd⟩ := hw
    rw [List.map_cons, List.nodup_cons] at hd
    obtain ⟨c, key, hname, hc, hkey⟩ := isName_iff.mp (hn (name, value) List.mem_cons_self)
    have hw' : AttributesWellFormed attributes :=
      ⟨fun x hx => hn x (List.mem_cons_of_mem _ hx), hd.2⟩
    have hcb : isBlank c = false := isBlank_of_isNameChar (isNameChar_of_isAlpha hc)
    have hlook : seen.lookup (c :: key) = none := by
      rw [← hname]
      exact hs (name, value) List.mem_cons_self
    cases rounds with
    | zero => simp at hr
    | succ rounds =>
      have hlen : s.length ≤ rounds := by
        simp only [List.length_append, List.length_cons] at hr
        omega
      obtain ⟨position, hread⟩ := readAttribute_rendering size hkey hq
        (quote_not_mem_escape hq value.toList) hlook s
      -- the key just read is not that of an attribute behind it
      have hs' : ∀ x ∈ attributes,
          ((c :: key, position) :: seen).lookup x.1.toList = none := by
        intro x hx
        have hxn : x.1.toList ≠ c :: key := by
          rw [← hname]
          intro he
          exact hd.1 (String.toList_inj.mp he ▸ List.mem_map_of_mem hx)
        rw [List.lookup_cons, beq_false_of_ne hxn]
        exact hs x (List.mem_cons_of_mem _ hx)
      rw [Tag.attributesIn, skipBlank_gap hgap, hname, List.cons_append, skipBlank_cons hcb]
      have hkn : String.ofList (c :: key) = name := by rw [← hname, String.ofList_toList]
      simp only [hread, unescape_escape, ih hw' hlen hs', bind, Except.bind, mapError_ok,
        pure, Except.pure, hkn, String.ofList_toList]

theorem attributes_rendering (name : List Char) {attributes : List (String × String)}
    {a : List Char} (h : AttributesRendering attributes a) (hw : AttributesWellFormed attributes) :
    Tag.attributes ⟨name, a⟩ = .ok attributes :=
  attributesIn_rendering _ h hw le_rfl (by simp)

/-! ## The whole tag -/

theorem attributesRendering_cases {attributes : List (String × String)} {a : List Char}
    (h : AttributesRendering attributes a) : a = [] ∨ ∃ c s, a = c :: s ∧ isBlank c = true := by
  cases h with
  | nil hgap =>
    cases a with
    | nil => exact .inl rfl
    | cons c s => exact .inr ⟨c, s, rfl, hgap c List.mem_cons_self⟩
  | @cons gap s quote name value attributes hne hgap hq rest =>
    cases gap with
    | nil => exact absurd rfl hne
    | cons c gap => exact .inr ⟨c, _, rfl, hgap c List.mem_cons_self⟩

/-- A rendered tag is cut behind its name. -/
theorem ofContent_rendering {name : String} {attributes : List (String × String)} {a : List Char}
    (hn : isName name = true) (h : AttributesRendering attributes a) :
    Tag.ofContent (name.toList ++ a) = ⟨name.toList, a⟩ := by
  have hall : ∀ c ∈ name.toList, (!isBlank c) = true := by
    intro c hc
    simp [isBlank_of_isNameChar (isNameChar_of_mem hn c hc)]
  rcases attributesRendering_cases h with rfl | ⟨c, s, rfl, hc⟩
  · simp only [Tag.ofContent, List.append_nil, List.takeWhile_eq_self_iff.mpr hall,
      List.dropWhile_eq_nil_iff.mpr hall]
  · rw [Tag.ofContent, takeWhile_append_cons hall (by simp [hc]),
      dropWhile_append_cons hall (by simp [hc])]

theorem getLast_attributes {attributes : List (String × String)} {a : List Char}
    (h : AttributesRendering attributes a) : a.getLast? ≠ some '/' := by
  induction h with
  | nil hgap =>
    intro hl
    exact ne_of_test (hgap _ (List.mem_of_getLast? hl)) (by decide) rfl
  | @cons gap s quote name value attributes hne hgap hq rest ih =>
    have hsplit : gap ++ (name.toList ++ '=' :: quote :: (escape value.toList ++ quote :: s)) =
        (gap ++ name.toList ++ '=' :: quote :: escape value.toList ++ [quote]) ++ s := by simp
    rw [hsplit, List.getLast?_append, List.getLast?_concat]
    cases hs : s.getLast? with
    | none =>
      intro hl
      rcases hq with rfl | rfl <;> cases hl
    | some c =>
      rw [hs] at ih
      exact ih

/-- A rendered tag does not end in a slash of its own. -/
theorem getLast_rendering {name : String} {attributes : List (String × String)} {a : List Char}
    (hn : isName name = true) (h : AttributesRendering attributes a) :
    (name.toList ++ a).getLast? ≠ some '/' := by
  rw [List.getLast?_append]
  cases ha : a.getLast? with
  | none =>
    intro hl
    exact ne_of_test (isNameChar_of_mem hn _ (List.mem_of_getLast? hl)) (by decide) rfl
  | some c =>
    have hne := getLast_attributes h
    rw [ha] at hne
    exact hne

theorem closed_rendering {name : String} {attributes : List (String × String)} {a : List Char}
    (hn : isName name = true) (h : AttributesRendering attributes a)
    (hw : AttributesWellFormed attributes) : Markup.Closed (name.toList ++ a) :=
  (closed_name (isNameChar_of_mem hn)).append (closed_attributes h hw.1)

end ApiClient.Xml
