import ApiClient.Proofs.Entries
import ApiClient.Proofs.Json.Numbers
import ApiClient.Proofs.Json.Sequences

/-!
# Lists and objects laid out in any way

White space may stand between any two parts of a list or an object. What its items are and how they
are written is left open here.

* `ItemsText`, `MembersText`: the texts of what is left in a list or an object;
* `Reads`: a reader takes the texts of a kind up to their ends;
* `Reads.elements`, `Reads.members`: then the texts of lists and objects of that kind are taken too,
  and every item stands for what it is read as alone.
-/

namespace ApiClient.Json

/-! ## What ends a number -/

theorem IsGap.endsNumber {gap : List Char} (h : IsGap gap) : EndsNumber gap := by
  intro c hc
  rcases eq_of_isBlank (h c (List.mem_of_mem_head? hc)) with rfl | rfl | rfl | rfl <;> decide

theorem endsNumber_gap {gap : List Char} (h : IsGap gap) {c : Char}
    (hc : c.isDigit = false ∧ c ∉ ['.', 'e', 'E']) (s : List Char) :
    EndsNumber (gap ++ c :: s) := by
  cases gap with
  | nil =>
    rintro d ⟨⟩
    exact hc
  | cons d gap => exact h.endsNumber

/-! ## Texts -/

section Texts

variable {α : Type}

/-- The texts of the items that are left in a list, with the closing bracket. -/
inductive ItemsText (Text : α → List Char → Prop) : Bool → List α → List Char → Prop
  | nil {first : Bool} {before : List Char} (hbefore : IsGap before) :
      ItemsText Text first [] (before ++ [']'])
  | cons {first : Bool} {x : α} {items : List α} {before between s more : List Char}
      (hbefore : IsGap before) (hbetween : IsGap between) (item : Text x s)
      (rest : ItemsText Text false items more) :
      ItemsText Text first (x :: items) (before ++ (comma first ++ (between ++ (s ++ more))))

/-- The texts of the members that are left in an object, with the closing brace. -/
inductive MembersText (Text : α → List Char → Prop) :
    Bool → List (String × α) → List Char → Prop
  | nil {first : Bool} {before : List Char} (hbefore : IsGap before) :
      MembersText Text first [] (before ++ ['\x7d'])
  | cons {first : Bool} {key : String} {x : α} {members : List (String × α)}
      {before between k behind inner s more : List Char} (hbefore : IsGap before)
      (hbetween : IsGap between) (hkey : SpellsString key.toList k) (hbehind : IsGap behind)
      (hinner : IsGap inner) (value : Text x s) (rest : MembersText Text false members more) :
      MembersText Text first ((key, x) :: members) (before ++ (comma first ++
        (between ++ '"' :: (k ++ '"' :: (behind ++ ':' :: (inner ++ (s ++ more)))))))

variable {Text : α → List Char → Prop} {s : List Char}

theorem ItemsText.endsNumber {items : List α} (h : ItemsText Text false items s)
    (rest : List Char) : EndsNumber (s ++ rest) := by
  cases h with
  | nil hbefore =>
    rw [List.append_assoc]
    exact endsNumber_gap hbefore (by decide) _
  | cons hbefore =>
    rw [List.append_assoc]
    exact endsNumber_gap hbefore (by decide) _

theorem MembersText.endsNumber {members : List (String × α)} (h : MembersText Text false members s)
    (rest : List Char) : EndsNumber (s ++ rest) := by
  cases h with
  | nil hbefore =>
    rw [List.append_assoc]
    exact endsNumber_gap hbefore (by decide) _
  | cons hbefore =>
    rw [List.append_assoc]
    exact endsNumber_gap hbefore (by decide) _

end Texts

/-! ## Reading -/

/-- A reader passes over white space, and takes the texts of a kind up to their ends. -/
structure Reads {α β : Type} (item : Reader β) (Text : α → List Char → Prop) (R : α → β → Prop) :
    Prop where
  skips {gap : List Char} (h : IsGap gap) (s : List Char) : item (gap ++ s) = item s
  /-- Neither white space nor the end of a list comes first. -/
  exists_eq {x : α} {s : List Char} (h : Text x s) :
    ∃ c s', s = c :: s' ∧ isBlank c = false ∧ c ≠ ']'
  read_iff {x : α} {s rest : List Char} (h : Text x s) (hrest : EndsNumber rest) {y : β}
    {rest' : List Char} : item (s ++ rest) = .ok (y, rest') ↔ R x y ∧ rest' = rest

namespace Reads

variable {α β : Type} {Text : α → List Char → Prop} {s rest rest' : List Char}

/-- One round reads an item, and the last one the closing bracket. -/
theorem elementsIn {item : Reader β} {R : α → β → Prop} (h : Reads item Text R) {first : Bool}
    {items : List α} (hs : ItemsText Text first items s) {rounds : Nat}
    (hrounds : s.length ≤ rounds) {ys : List β} :
    elementsIn item rounds first (s ++ rest) = .ok (ys, rest') ↔
      List.Forall₂ R items ys ∧ rest' = rest := by
  induction hs generalizing rounds ys rest' with
  | nil hbefore =>
    rw [List.length_append, List.length_singleton] at hrounds
    obtain ⟨rounds, rfl⟩ := Nat.exists_eq_add_one.mpr (Nat.lt_of_lt_of_le (Nat.succ_pos _) hrounds)
    rw [List.append_assoc, List.singleton_append, elementsIn_closed _ _ _ hbefore]
    constructor
    · rintro ⟨⟩
      exact ⟨.nil, rfl⟩
    · rintro ⟨⟨⟩, rfl⟩
      rfl
  | @cons first x items before between s more hbefore hbetween hitem hmore ih =>
    -- the item is not empty, so the rounds that are left are enough for the shorter rest
    obtain ⟨c, s', hs, hblank, hclosing⟩ := h.exists_eq hitem
    have hlength : more.length < rounds := by
      simp only [hs, List.length_append, List.length_cons] at hrounds
      omega
    obtain ⟨rounds, rfl⟩ := Nat.exists_eq_add_one.mpr (Nat.zero_lt_of_lt hlength)
    have hround := elementsIn_item item rounds first hbefore hbetween hblank hclosing
      (s' ++ (more ++ rest))
    rw [← List.cons_append, ← hs] at hround
    simp only [List.append_assoc]
    rw [hround, bind_eq_ok_iff]
    constructor
    · rintro ⟨⟨y, s₁⟩, hy, htail⟩
      obtain ⟨hxy, rfl⟩ := (h.read_iff hitem (hmore.endsNumber rest)).mp hy
      obtain ⟨⟨ys, s₂⟩, hys, hend⟩ := bind_eq_ok_iff.mp htail
      cases hend
      obtain ⟨hitems, rfl⟩ := (ih (Nat.le_of_lt_succ hlength)).mp hys
      exact ⟨.cons hxy hitems, rfl⟩
    · rintro ⟨_ | ⟨hxy, hitems⟩, rfl⟩
      exact ⟨_, (h.read_iff hitem (hmore.endsNumber _)).mpr ⟨hxy, rfl⟩,
        bind_eq_ok_iff.mpr ⟨_, (ih (Nat.le_of_lt_succ hlength)).mpr ⟨hitems, rfl⟩, rfl⟩⟩

/-- The texts of a list are taken up to the closing bracket. -/
theorem elements {item : Reader β} {R : α → β → Prop} (h : Reads item Text R) {items : List α}
    (hs : ItemsText Text true items s) {ys : List β} :
    elements item (s ++ rest) = .ok (ys, rest') ↔ List.Forall₂ R items ys ∧ rest' = rest :=
  h.elementsIn hs (by simp)

/-- One round reads a member and puts its value under its key, and the last one reads the closing
brace. -/
theorem membersIn {item : Reader Document} {R : α → Document → Prop} (h : Reads item Text R)
    {first : Bool} {members : List (String × α)} (hs : MembersText Text first members s)
    {rounds : Nat} (hrounds : s.length ≤ rounds) {before after : List (String × Document)} :
    membersIn .text (inserting item) rounds first before (s ++ rest) = .ok (after, rest') ↔
      ∃ pairs, Entries.Matched R members pairs ∧
        after = pairs.foldl (fun entries pair => Entries.insert pair.1 pair.2 entries) before ∧
        rest' = rest := by
  induction hs generalizing rounds before rest' with
  | nil hbefore =>
    rw [List.length_append, List.length_singleton] at hrounds
    obtain ⟨rounds, rfl⟩ := Nat.exists_eq_add_one.mpr (Nat.lt_of_lt_of_le (Nat.succ_pos _) hrounds)
    rw [List.append_assoc, List.singleton_append, membersIn_closed _ _ _ _ hbefore]
    constructor
    · rintro ⟨⟩
      exact ⟨[], .nil, rfl, rfl⟩
    · rintro ⟨_, ⟨⟩, rfl, rfl⟩
      rfl
  | @cons _ key x members gap between k behind inner s more hbefore hbetween hkey hbehind hinner
      hvalue hmore ih =>
    have hlength : more.length < rounds := by
      simp only [List.length_append, List.length_cons] at hrounds
      omega
    obtain ⟨rounds, rfl⟩ := Nat.exists_eq_add_one.mpr (Nat.zero_lt_of_lt hlength)
    simp only [List.append_assoc, List.cons_append]
    rw [membersIn_entry _ _ _ hbefore hbetween hbehind hkey rfl, h.skips hinner, bind_assoc,
      bind_eq_ok_iff]
    constructor
    · rintro ⟨⟨d, s₁⟩, hd, htail⟩
      obtain ⟨hxd, rfl⟩ := (h.read_iff hvalue (hmore.endsNumber rest)).mp hd
      obtain ⟨pairs, hpairs, rfl, rfl⟩ := (ih (Nat.le_of_lt_succ hlength)).mp htail
      exact ⟨(key, d) :: pairs, .cons hxd hpairs, rfl, rfl⟩
    · rintro ⟨_, _ | ⟨hxd, hpairs⟩, rfl, rfl⟩
      exact ⟨_, (h.read_iff hvalue (hmore.endsNumber _)).mpr ⟨hxd, rfl⟩,
        (ih (Nat.le_of_lt_succ hlength)).mpr ⟨_, hpairs, rfl, rfl⟩⟩

/-- The texts of an object are taken up to the closing brace. The last value of a key counts. -/
theorem members {item : Reader Document} {R : α → Document → Prop} (h : Reads item Text R)
    {members : List (String × α)} (hs : MembersText Text true members s)
    {entries : List (String × Document)} :
    Json.members .text (inserting item) [] (s ++ rest) = .ok (entries, rest') ↔
      ∃ pairs, Entries.Matched R members pairs ∧ entries = Entries.ofPairs pairs ∧ rest' = rest :=
  h.membersIn hs (by simp)

end Reads

end ApiClient.Json
