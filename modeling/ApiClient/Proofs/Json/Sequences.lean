import ApiClient.Json.Sequence
import ApiClient.Proofs.Document
import ApiClient.Proofs.Json.Strings
import ApiClient.Proofs.Results

/-!
# Lists and objects are read back

* `IsGap`: white space, which may be between any two parts of a text;
* `elementsIn_item`, `elementsIn_closed`: a round that finds an item, and the last one;
* `membersIn_entry`, `membersIn_closed`: a round that finds a key, and the last one;
* `itemsText`, `entriesText`: the compact texts of items and entries;
* `elements_itemsText`, `members_entriesText`: they are read back if everything in them is;
* `nesting_le_of_elementsIn`, `nesting_le_of_membersIn`: where a bound on the nesting holds for each
  of them that is read, it holds for all.
-/

namespace ApiClient.Json

theorem skipBlank_of_head {c : Char} (h : isBlank c = false) (s : List Char) :
    skipBlank (c :: s) = c :: s :=
  List.dropWhile_cons_of_neg (by simp [h])

theorem eq_of_isBlank {c : Char} (h : isBlank c = true) :
    c = ' ' ∨ c = '\t' ∨ c = '\n' ∨ c = '\r' := by
  simpa [isBlank, or_assoc] using h

/-- White space, or nothing. -/
def IsGap (s : List Char) : Prop := ∀ c ∈ s, isBlank c = true

instance : DecidablePred IsGap := fun _ => decidable_of_iff _ List.all_eq_true

theorem isGap_nil : IsGap [] := List.forall_mem_nil _

theorem skipBlank_append {gap : List Char} (h : IsGap gap) (s : List Char) :
    skipBlank (gap ++ s) = skipBlank s :=
  List.dropWhile_append_of_pos h

theorem skipBlank_eq_nil {gap : List Char} (h : IsGap gap) : skipBlank gap = [] := by
  have hall := skipBlank_append h []
  rwa [List.append_nil] at hall

theorem skipBlank_gap {gap : List Char} (h : IsGap gap) {c : Char} (hc : isBlank c = false)
    (s : List Char) : skipBlank (gap ++ c :: s) = c :: s := by
  rw [skipBlank_append h, skipBlank_of_head hc]

/-- What stands before an item or a key: a comma, unless it is the first. -/
def comma (first : Bool) : List Char := if first then [] else [',']

/-! ## Lists -/

section Elements

variable {α : Type} (item : Reader α) (rounds : Nat) (first : Bool) {before between : List Char}

theorem elementsIn_item (hbefore : IsGap before) (hbetween : IsGap between) {c : Char}
    (hblank : isBlank c = false) (hclosing : c ≠ ']') (s : List Char) :
    elementsIn item (rounds + 1) first (before ++ (comma first ++ (between ++ c :: s))) = (do
      let (x, s) ← item (c :: s)
      let (xs, s) ← elementsIn item rounds false s
      return (x :: xs, s)) := by
  have hnext : nextItem first (before ++ (comma first ++ (between ++ c :: s))) =
      .ok (.goesOn (c :: s)) := by
    cases first with
    | true =>
      rw [nextItem, comma, if_pos rfl, List.nil_append, skipBlank_append hbefore,
        skipBlank_gap hbetween hblank]
      dsimp only
      rw [if_neg hclosing, if_pos rfl]
    | false =>
      have hcomma : skipBlank (before ++ (comma false ++ (between ++ c :: s))) =
          ',' :: (between ++ c :: s) := skipBlank_gap hbefore (by decide) _
      rw [nextItem, hcomma]
      dsimp only
      rw [skipBlank_gap hbetween hblank]
      dsimp only
      rw [if_neg hclosing]
      rfl
  rw [elementsIn, hnext]
  rfl

theorem elementsIn_closed (hbefore : IsGap before) (rest : List Char) :
    elementsIn item (rounds + 1) first (before ++ ']' :: rest) = .ok ([], rest) := by
  rw [elementsIn, nextItem, skipBlank_gap hbefore (by decide)]
  rfl

end Elements

/-! ## Objects -/

section Members

variable {σ : Type} {member : Member σ} (rounds : Nat) (first : Bool) (state : σ)
variable {before between behind : List Char}

theorem membersIn_entry (hbefore : IsGap before) (hbetween : IsGap between)
    (hbehind : IsGap behind) {key : String} {k : List Char} (hkey : SpellsString key.toList k)
    {reader : Reader σ} (h : member state key = .ok reader) (s : List Char) :
    membersIn .text member (rounds + 1) first state
        (before ++ (comma first ++ (between ++ '"' :: (k ++ '"' :: (behind ++ ':' :: s))))) = (do
      let (state, s) ← reader s
      membersIn .text member rounds false state s) := by
  have hnext : nextKey first
      (before ++ (comma first ++ (between ++ '"' :: (k ++ '"' :: (behind ++ ':' :: s))))) =
        .ok (.goesOn (k ++ '"' :: (behind ++ ':' :: s))) := by
    cases first with
    | true =>
      rw [nextKey, comma, if_pos rfl, List.nil_append, skipBlank_append hbefore,
        skipBlank_gap hbetween (by decide)]
      rfl
    | false =>
      have hcomma : skipBlank
          (before ++ (comma false ++ (between ++ '"' :: (k ++ '"' :: (behind ++ ':' :: s))))) =
            ',' :: (between ++ '"' :: (k ++ '"' :: (behind ++ ':' :: s))) :=
        skipBlank_gap hbefore (by decide) _
      rw [nextKey, hcomma]
      dsimp only
      rw [skipBlank_gap hbetween (by decide)]
      rfl
  rw [membersIn, hnext]
  dsimp only [bind, Except.bind]
  rw [string_spelled hkey]
  dsimp only
  rw [h, colon, skipBlank_gap hbehind (by decide)]
  rfl

theorem membersIn_closed (member : Member σ) (hbefore : IsGap before) (rest : List Char) :
    membersIn .text member (rounds + 1) first state (before ++ '\x7d' :: rest) =
      .ok (state, rest) := by
  rw [membersIn, nextKey, skipBlank_gap hbefore (by decide)]
  rfl

end Members

/-! ## Texts of documents -/

/-- The first character of a document's text. -/
theorem exists_render_eq (d : Document) :
    ∃ c s, render d = c :: s ∧ isBlank c = false ∧ c ≠ ']' := by
  cases d with
  | null => exact ⟨_, _, rfl, by decide, by decide⟩
  | text content => exact ⟨_, _, rfl, by decide, by decide⟩
  | list items => cases items <;> exact ⟨_, _, rfl, by decide, by decide⟩
  | map entries => cases entries <;> exact ⟨_, _, rfl, by decide, by decide⟩

/-- The items of a list with the closing bracket, in front of them a comma unless the first of them
is the first of the list. -/
def itemsText (first : Bool) : List Document → List Char
  | [] => [']']
  | d :: items => comma first ++ (render d ++ renderItems items)

/-- The entries of a map with the closing brace, in the same way. -/
def entriesText (first : Bool) : List (String × Document) → List Char
  | [] => ['\x7d']
  | (key, d) :: entries => comma first ++ (quote key ++ ':' :: (render d ++ renderEntries entries))

theorem itemsText_false (items : List Document) : itemsText false items = renderItems items := by
  cases items <;> rfl

theorem entriesText_false (entries : List (String × Document)) :
    entriesText false entries = renderEntries entries := by
  cases entries <;> rfl

theorem render_list (items : List Document) :
    render (.list items) = '[' :: itemsText true items := by
  cases items <;> rfl

theorem render_map (entries : List (String × Document)) :
    render (.map entries) = '\x7b' :: entriesText true entries := by
  cases entries <;> rfl

theorem length_lt_itemsText (first : Bool) (items : List Document) :
    items.length < (itemsText first items).length := by
  induction items generalizing first with
  | nil => exact Nat.one_pos
  | cons d items ih =>
    obtain ⟨c, s, hd, -, -⟩ := exists_render_eq d
    have h := ih false
    rw [itemsText_false] at h
    rw [itemsText, hd, List.length_append, List.length_append, List.length_cons, List.length_cons]
    omega

theorem length_lt_entriesText (first : Bool) (entries : List (String × Document)) :
    entries.length < (entriesText first entries).length := by
  induction entries generalizing first with
  | nil => exact Nat.one_pos
  | cons entry entries ih =>
    have h := ih false
    rw [entriesText_false] at h
    rw [entriesText, List.length_append, List.length_append, List.length_cons, List.length_cons,
      List.length_append]
    omega

/-- The member of a map: its value is read and put under its key. -/
def inserting (item : Reader Document) : Member (List (String × Document)) := fun entries key =>
  .ok fun s => do
    let (d, s) ← item s
    return (Entries.insert key d entries, s)

/-! ## Items and entries -/

section Rounds

variable (item : Reader Document) (rounds : Nat) (first : Bool)

theorem elementsIn_cons (d : Document) (items : List Document) (rest : List Char) :
    elementsIn item (rounds + 1) first (itemsText first (d :: items) ++ rest) = (do
      let (x, s) ← item (render d ++ (itemsText false items ++ rest))
      let (xs, s) ← elementsIn item rounds false s
      return (x :: xs, s)) := by
  obtain ⟨c, s, hd, hblank, hclosing⟩ := exists_render_eq d
  rw [itemsText, itemsText_false, List.append_assoc, List.append_assoc, hd, List.cons_append]
  exact elementsIn_item item rounds first isGap_nil isGap_nil hblank hclosing _

theorem membersIn_cons (key : String) (d : Document) (entries before : List (String × Document))
    (rest : List Char) :
    membersIn .text (inserting item) (rounds + 1) first before
        (entriesText first ((key, d) :: entries) ++ rest) = (do
      let (x, s) ← item (render d ++ (entriesText false entries ++ rest))
      membersIn .text (inserting item) rounds false (Entries.insert key x before) s) := by
  have hmember : inserting item before key = .ok fun s => do
      let (d, s) ← item s
      return (Entries.insert key d before, s) := rfl
  have hentry := membersIn_entry rounds first before isGap_nil isGap_nil isGap_nil
    (spells_escaped key.toList) hmember (render d ++ (renderEntries entries ++ rest))
  rw [bind_assoc] at hentry
  rw [entriesText, entriesText_false, quote]
  simp only [List.append_assoc, List.cons_append]
  exact hentry

end Rounds

section Reading

variable {n : Nat} {rest rest' : List Char}
variable {item : Reader Document} {items : List Document} {entries : List (String × Document)}

theorem elementsIn_itemsText
    (h : ∀ d ∈ items, ∀ rest, item (render d ++ rest) = .ok (d, rest)) {rounds : Nat}
    (hrounds : items.length < rounds) (first : Bool) (rest : List Char) :
    elementsIn item rounds first (itemsText first items ++ rest) = .ok (items, rest) := by
  -- one round for every item, and one for the closing bracket
  induction items generalizing rounds first with
  | nil =>
    obtain ⟨rounds, rfl⟩ := Nat.exists_eq_add_one.mpr hrounds
    exact elementsIn_closed item rounds first isGap_nil rest
  | cons d items ih =>
    obtain ⟨rounds, rfl⟩ := Nat.exists_eq_add_one.mpr (Nat.zero_lt_of_lt hrounds)
    obtain ⟨hd, hitems⟩ := List.forall_mem_cons.mp h
    have hmore := ih hitems (Nat.lt_of_succ_lt_succ hrounds) false
    rw [elementsIn_cons, hd]
    dsimp only [bind, Except.bind]
    rw [hmore]
    rfl

theorem membersIn_entriesText
    (h : ∀ entry ∈ entries, ∀ rest, item (render entry.2 ++ rest) = .ok (entry.2, rest))
    {before : List (String × Document)} (hkeys : (Entries.keys (before ++ entries)).Nodup)
    {rounds : Nat} (hrounds : entries.length < rounds) (first : Bool) (rest : List Char) :
    membersIn .text (inserting item) rounds first before (entriesText first entries ++ rest) =
      .ok (before ++ entries, rest) := by
  -- every key is new among those before it, so its entry goes to their end
  induction entries generalizing rounds first before with
  | nil =>
    obtain ⟨rounds, rfl⟩ := Nat.exists_eq_add_one.mpr hrounds
    rw [List.append_nil]
    exact membersIn_closed rounds first before _ isGap_nil rest
  | cons entry entries ih =>
    obtain ⟨key, d⟩ := entry
    obtain ⟨rounds, rfl⟩ := Nat.exists_eq_add_one.mpr (Nat.zero_lt_of_lt hrounds)
    obtain ⟨hd, hentries⟩ := List.forall_mem_cons.mp h
    have hnew : key ∉ Entries.keys before := fun hmem => by
      rw [Entries.keys, List.map_append, List.nodup_append] at hkeys
      exact hkeys.2.2 key hmem key List.mem_cons_self rfl
    rw [List.append_cons] at hkeys
    have hmore := ih hentries hkeys (Nat.lt_of_succ_lt_succ hrounds) false
    rw [membersIn_cons, hd]
    dsimp only [bind, Except.bind]
    rw [Entries.insert_of_not_mem hnew, hmore, ← List.append_cons]

theorem elements_itemsText
    (h : ∀ d ∈ items, ∀ rest, item (render d ++ rest) = .ok (d, rest)) (rest : List Char) :
    elements item (itemsText true items ++ rest) = .ok (items, rest) := by
  refine elementsIn_itemsText h ?_ true rest
  rw [List.length_append]
  exact Nat.lt_add_right _ (length_lt_itemsText true items)

theorem members_entriesText
    (h : ∀ entry ∈ entries, ∀ rest, item (render entry.2 ++ rest) = .ok (entry.2, rest))
    (hkeys : (Entries.keys entries).Nodup) (rest : List Char) :
    members .text (inserting item) [] (entriesText true entries ++ rest) = .ok (entries, rest) := by
  refine membersIn_entriesText h (List.nil_append entries ▸ hkeys) ?_ true rest
  rw [List.length_append]
  exact Nat.lt_add_right _ (length_lt_entriesText true entries)

/-- Items that are read are all read to their ends, and none is nested too deep. -/
theorem nesting_le_of_elementsIn
    (h : ∀ d ∈ items, ∀ rest x rest', item (render d ++ rest) = .ok (x, rest') →
      rest' = rest ∧ d.nesting ≤ n) {rounds : Nat} {first : Bool} {xs : List Document}
    (hread : elementsIn item rounds first (itemsText first items ++ rest) = .ok (xs, rest')) :
    rest' = rest ∧ ∀ d ∈ items, d.nesting ≤ n := by
  induction items generalizing rounds first xs rest' with
  | nil =>
    cases rounds with
    | zero => cases hread
    | succ rounds =>
      cases (elementsIn_closed item rounds first isGap_nil rest).symm.trans hread
      exact ⟨rfl, List.forall_mem_nil _⟩
  | cons d items ih =>
    cases rounds with
    | zero => cases hread
    | succ rounds =>
      obtain ⟨hd, hitems⟩ := List.forall_mem_cons.mp h
      rw [elementsIn_cons] at hread
      obtain ⟨⟨x, s⟩, hx, hbehind⟩ := bind_eq_ok_iff.mp hread
      obtain ⟨rfl, hnesting⟩ := hd _ _ _ hx
      obtain ⟨⟨xs, s⟩, hxs, hend⟩ := bind_eq_ok_iff.mp hbehind
      obtain ⟨rfl, hmore⟩ := ih hitems hxs
      cases hend
      exact ⟨rfl, List.forall_mem_cons.mpr ⟨hnesting, hmore⟩⟩

/-- Entries that are read are all read to their ends, and none is nested too deep. -/
theorem nesting_le_of_membersIn
    (h : ∀ entry ∈ entries, ∀ rest x rest', item (render entry.2 ++ rest) = .ok (x, rest') →
      rest' = rest ∧ entry.2.nesting ≤ n) {rounds : Nat} {first : Bool}
    {before after : List (String × Document)}
    (hread : membersIn .text (inserting item) rounds first before
      (entriesText first entries ++ rest) = .ok (after, rest')) :
    rest' = rest ∧ ∀ entry ∈ entries, entry.2.nesting ≤ n := by
  induction entries generalizing rounds first before rest' with
  | nil =>
    cases rounds with
    | zero => cases hread
    | succ rounds =>
      cases (membersIn_closed rounds first before _ isGap_nil rest).symm.trans hread
      exact ⟨rfl, List.forall_mem_nil _⟩
  | cons entry entries ih =>
    obtain ⟨key, d⟩ := entry
    cases rounds with
    | zero => cases hread
    | succ rounds =>
      obtain ⟨hd, hentries⟩ := List.forall_mem_cons.mp h
      rw [membersIn_cons] at hread
      obtain ⟨⟨x, s⟩, hx, hbehind⟩ := bind_eq_ok_iff.mp hread
      obtain ⟨rfl, hnesting⟩ := hd _ _ _ hx
      obtain ⟨rfl, hmore⟩ := ih hentries hbehind
      exact ⟨rfl, List.forall_mem_cons.mpr ⟨hnesting, hmore⟩⟩

end Reading

end ApiClient.Json
