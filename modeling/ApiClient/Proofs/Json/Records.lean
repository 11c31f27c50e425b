import ApiClient.Json.Record
import ApiClient.Proofs.Json.Grammar

/-!
# Records are read back

* `Yields`: a reader takes every text of a value to its end, and what it makes of it;
* `yields_text`, `yields_list`: strings, and lists of what is read back;
* `Gathers`: what the members of an object lead to, one after the other;
* `Shape.yields_reader`: a record is read back if its members lead to all of it;
* `read_spelled`: the same for whole texts;
* `spells_quote`, `spellsItems_cons`, `spellsMembers_cons`: texts without white space;
* `exists_spells_list`, `exists_spells_map`: there are texts of lists and objects.
-/

namespace ApiClient.Json

/-! ## The texts of a kind of value -/

section Texts

variable {n : Nat} {s : List Char}

theorem IsText.exists_string {content : String} (h : IsText n (.text content) s) :
    ∃ k, SpellsString content.toList k ∧ s = '"' :: (k ++ ['"']) := by
  rcases h.exists_eq_or with ⟨_, k, hk, ⟨⟩, hs⟩ | ⟨hne, -⟩
  · exact ⟨k, hk, hs⟩
  · exact absurd rfl (hne content)

theorem IsText.exists_items {items : List Tree} (h : IsText n (.list items) s) :
    ∃ m inside, ItemsText (IsText m) true items inside ∧ s = '[' :: inside := by
  cases n with
  | zero => cases h
  | succ n =>
    rcases h with h | h
    · cases h
    · cases h with
      | list inside => exact ⟨n, _, inside, rfl⟩

theorem IsText.exists_members {members : List (String × Tree)} (h : IsText n (.map members) s) :
    ∃ m inside, MembersText (IsText m) true members inside ∧ s = '\x7b' :: inside := by
  cases n with
  | zero => cases h
  | succ n =>
    rcases h with h | h
    · cases h
    · cases h with
      | map inside => exact ⟨n, _, inside, rfl⟩

end Texts

/-! ## Readers of values -/

section Yields

variable {α β : Type} {reader : Reader β} {t : Tree}

/-- Every text of a value is taken to its end, with the white space before it, and `y` is made of
it. -/
def Yields (reader : Reader β) (t : Tree) (y : β) : Prop :=
  ∀ ⦃n : Nat⦄ ⦃gap s rest : List Char⦄, IsGap gap → IsText n t s → EndsNumber rest →
    reader (gap ++ (s ++ rest)) = .ok (y, rest)

theorem Yields.map {y : β} (h : Yields reader t y) (f : β → α) :
    Yields (fun s => do let (x, s) ← reader s; return (f x, s)) t (f y) := by
  intro n gap s rest hgap hs hrest
  dsimp only
  rw [h hgap hs hrest]
  rfl

theorem yields_text (content : String) : Yields (text .text) (.text content) content := by
  intro n gap s rest hgap hs _
  obtain ⟨k, hk, rfl⟩ := hs.exists_string
  rw [text, List.cons_append, List.append_assoc, List.singleton_append,
    skipBlank_gap hgap (by decide)]
  exact string_spelled hk rest

/-- The texts of items are those of what is made of them. -/
theorem itemsText_of_yields {items : List Tree} {ys : List β}
    (h : List.Forall₂ (Yields reader) items ys) {n : Nat} {first : Bool} {s : List Char}
    (hs : ItemsText (IsText n) first items s) :
    ItemsText (fun y s => ∃ t, Yields reader t y ∧ IsText n t s) first ys s := by
  induction hs generalizing ys with
  | nil hbefore =>
    cases h
    exact .nil hbefore
  | cons hbefore hbetween item _ ih =>
    cases h with
    | cons hy hys => exact .cons hbefore hbetween ⟨_, hy, item⟩ (ih hys)

theorem reads_yields (hskips : ∀ {gap : List Char}, IsGap gap → ∀ s, reader (gap ++ s) = reader s)
    (n : Nat) : Reads reader (fun y s => ∃ t, Yields reader t y ∧ IsText n t s) Eq where
  skips := hskips
  exists_eq := fun ⟨_, _, hs⟩ => hs.exists_eq
  read_iff := by
    rintro y s rest ⟨t, hy, hs⟩ hrest y' rest'
    have hread := hy isGap_nil hs hrest
    rw [List.nil_append] at hread
    rw [hread, Except.ok.injEq, Prod.mk.injEq, eq_comm (a := rest)]

theorem yields_list (hskips : ∀ {gap : List Char}, IsGap gap → ∀ s, reader (gap ++ s) = reader s)
    {items : List Tree} {ys : List β} (h : List.Forall₂ (Yields reader) items ys) :
    Yields (list .text reader) (.list items) ys := by
  intro n gap s rest hgap hs _
  obtain ⟨m, inside, hinside, rfl⟩ := hs.exists_items
  rw [list, List.cons_append, skipBlank_gap hgap (by decide)]
  exact ((reads_yields hskips m).elements (itemsText_of_yields h hinside)).mpr
    ⟨List.forall₂_refl ys, rfl⟩

theorem text_gap {gap : List Char} (h : IsGap gap) (s : List Char) :
    text .text (gap ++ s) = text .text s := by
  rw [text, text, skipBlank_append h]

theorem yields_texts (contents : List String) :
    Yields (texts .text) (.list (contents.map .text)) contents := by
  refine yields_list text_gap ?_
  rw [List.forall₂_map_left_iff, List.forall₂_same]
  exact fun content _ => yields_text content

end Yields

/-! ## Objects -/

section Members

variable {σ α : Type} {member : Member σ} {state last : σ} {members : List (String × Tree)}

/-- The members of an object lead from one state to another: each key has a reader, and that makes
the next state of the value. -/
inductive Gathers (member : Member σ) : σ → List (String × Tree) → σ → Prop
  | nil (state : σ) : Gathers member state [] state
  | cons {state next last : σ} {key : String} {t : Tree} {members : List (String × Tree)}
      {reader : Reader σ} (hmember : member state key = .ok reader) (hvalue : Yields reader t next)
      (rest : Gathers member next members last) : Gathers member state ((key, t) :: members) last

/-- One round reads a member, and the last one the closing brace. -/
theorem membersIn_gathers (h : Gathers member state members last) {n : Nat} {first : Bool}
    {s : List Char} (hs : MembersText (IsText n) first members s) {rounds : Nat}
    (hrounds : s.length ≤ rounds) (rest : List Char) :
    membersIn .text member rounds first state (s ++ rest) = .ok (last, rest) := by
  induction hs generalizing rounds state with
  | nil hbefore =>
    rw [List.length_append, List.length_singleton] at hrounds
    obtain ⟨rounds, rfl⟩ := Nat.exists_eq_add_one.mpr (Nat.lt_of_lt_of_le (Nat.succ_pos _) hrounds)
    cases h
    rw [List.append_assoc, List.singleton_append, membersIn_closed _ _ _ _ hbefore]
  | @cons _ key x members gap between k behind inner s more hbefore hbetween hkey hbehind hinner
      hvalue hmore ih =>
    have hlength : more.length < rounds := by
      simp only [List.length_append, List.length_cons] at hrounds
      omega
    obtain ⟨rounds, rfl⟩ := Nat.exists_eq_add_one.mpr (Nat.zero_lt_of_lt hlength)
    cases h with
    | cons hmember hyields hgathers =>
      simp only [List.append_assoc, List.cons_append]
      rw [membersIn_entry _ _ _ hbefore hbetween hbehind hkey hmember,
        hyields hinner hvalue (hmore.endsNumber rest)]
      exact ih hgathers (Nat.le_of_lt_succ hlength)

theorem Shape.member_of_find? {shape : Shape σ α} {key : String} {field : Field σ}
    (hfind : shape.fields.find? (·.name == key) = some field) (hset : field.isSet state = false) :
    shape.member state key = .ok (field.value state) := by
  rw [Shape.member, hfind]
  dsimp only
  rw [hset]
  rfl

theorem Shape.reader_gap (shape : Shape σ α) {gap : List Char} (h : IsGap gap) (s : List Char) :
    shape.reader .text (gap ++ s) = shape.reader .text s := by
  rw [Shape.reader, Shape.reader, skipBlank_append h]

theorem Shape.reader_brace (shape : Shape σ α) (s : List Char) :
    shape.reader .text ('\x7b' :: s) = (do
      let (state, s) ← Json.members .text shape.member shape.empty s
      shape.close state s) :=
  rfl

/-- An object is read as the record that its members lead to. -/
theorem Shape.yields_reader {shape : Shape σ α} {x : α}
    (h : Gathers shape.member shape.empty members last) (hfinish : shape.finish last = .ok x) :
    Yields (shape.reader .text) (.map members) x := by
  intro n gap s rest hgap hs _
  obtain ⟨m, inside, hinside, rfl⟩ := hs.exists_members
  have hmembers : Json.members .text shape.member shape.empty (inside ++ rest) = .ok (last, rest) :=
    membersIn_gathers h hinside (by simp) rest
  rw [shape.reader_gap hgap, List.cons_append, Shape.reader_brace, hmembers]
  dsimp only [bind, Except.bind]
  rw [Shape.close, hfinish]

end Members

/-! ## Whole texts -/

/-- A text of a value, with white space around it, is read as what the reader makes of it. -/
theorem read_spelled {β : Type} {reader : Reader β} {n : Nat} {t : Tree} {y : β}
    {before s after : List Char} (h : Yields reader t y) (hs : Spells n t s)
    (hbefore : IsGap before) (hafter : IsGap after) :
    read .text reader (before ++ (s ++ after)) = .ok y := by
  rw [read, h hbefore hs.isText hafter.endsNumber]
  dsimp only [bind, Except.bind]
  rw [skipBlank_eq_nil hafter]
  rfl

/-! ## Compact texts -/

section Compact

variable {n : Nat} {first : Bool} {t : Tree} {items : List Tree} {members : List (String × Tree)}
variable {s more : List Char}

theorem spells_quote (n : Nat) (content : String) : Spells n (.text content) (quote content) :=
  .text (spells_escaped content.toList)

theorem spellsItems_nil : SpellsItems n first [] [']'] := .nil isGap_nil

theorem spellsItems_cons (hs : Spells n t s) (hmore : SpellsItems n false items more) :
    SpellsItems n first (t :: items) (comma first ++ (s ++ more)) :=
  .cons isGap_nil isGap_nil hs hmore

theorem spellsMembers_nil : SpellsMembers n first [] ['\x7d'] := .nil isGap_nil

theorem spellsMembers_cons (key : String) (hs : Spells n t s)
    (hmore : SpellsMembers n false members more) :
    SpellsMembers n first ((key, t) :: members)
      (comma first ++ '"' :: (key.toList.flatMap escape ++ '"' :: ':' :: (s ++ more))) :=
  .cons isGap_nil isGap_nil (spells_escaped key.toList) isGap_nil isGap_nil hs hmore

theorem exists_spells_list (h : ∀ t ∈ items, ∃ s, Spells n t s) :
    ∃ s, Spells (n + 1) (.list items) s := by
  suffices hitems : ∀ first, ∃ s, SpellsItems n first items s by
    obtain ⟨s, hs⟩ := hitems true
    exact ⟨_, .list hs⟩
  induction items with
  | nil => exact fun _ => ⟨_, spellsItems_nil⟩
  | cons t items ih =>
    obtain ⟨⟨s, hs⟩, hitems⟩ := List.forall_mem_cons.mp h
    obtain ⟨more, hmore⟩ := ih hitems false
    exact fun _ => ⟨_, spellsItems_cons hs hmore⟩

theorem exists_spells_map (h : ∀ member ∈ members, ∃ s, Spells n member.2 s)
    (hnumber : numberKey ∉ Entries.keys members) : ∃ s, Spells (n + 1) (.map members) s := by
  suffices hmembers : ∀ first, ∃ s, SpellsMembers n first members s by
    obtain ⟨s, hs⟩ := hmembers true
    exact ⟨_, .map hs fun hhead => hnumber (List.mem_of_mem_head? hhead)⟩
  clear hnumber
  induction members with
  | nil => exact fun _ => ⟨_, spellsMembers_nil⟩
  | cons member members ih =>
    obtain ⟨⟨s, hs⟩, hmembers⟩ := List.forall_mem_cons.mp h
    obtain ⟨more, hmore⟩ := ih hmembers false
    exact fun _ => ⟨_, spellsMembers_cons member.1 hs hmore⟩

end Compact

end ApiClient.Json
