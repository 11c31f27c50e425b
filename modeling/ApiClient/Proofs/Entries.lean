import ApiClient.Entries
import ApiClient.Proofs.Lists

/-!
# Entries of pairs stored one after the other

* `keys_ofPairs`, `nodup_keys_ofPairs`: the keys stand where they come first, and each once;
* `find?_ofPairs`, `find?_ofPairs_eq`: a key has the value of its last pair;
* `mem_of_find?`, `find?_eq_some_iff`, `mem_of_mem_ofPairs`: a value that is found is that of an
  entry, and every entry is one of the pairs;
* `ofPairs_of_nodup`: pairs with distinct keys are stored as they are;
* `Matched`: pairs with the same keys and related values, with `Matched.find?_ofPairs` for what is
  found in them.
-/

namespace ApiClient.Entries

variable {α : Type}

/-! ## Single insertions -/

theorem keys_append (pairs more : List (String × α)) :
    keys (pairs ++ more) = keys pairs ++ keys more :=
  List.map_append

theorem mem_of_mem_insert {entry : String × α} {key : String} {value : α}
    {entries : List (String × α)} (h : entry ∈ insert key value entries) :
    entry = (key, value) ∨ entry ∈ entries := by
  induction entries with
  | nil => exact .inl (List.mem_singleton.mp h)
  | cons first rest ih =>
    obtain ⟨k, v⟩ := first
    rw [insert] at h
    split_ifs at h with hk
    · rcases List.mem_cons.mp h with rfl | h
      · exact .inl (by rw [hk])
      · exact .inr (List.mem_cons_of_mem _ h)
    · rcases List.mem_cons.mp h with rfl | h
      · exact .inr List.mem_cons_self
      · exact (ih h).imp_right (List.mem_cons_of_mem _)

theorem mem_of_find? {key : String} {value : α} {entries : List (String × α)}
    (h : find? key entries = some value) : (key, value) ∈ entries := by
  induction entries with
  | nil => cases h
  | cons first rest ih =>
    obtain ⟨k, v⟩ := first
    rw [find?] at h
    split_ifs at h with hk
    · cases h
      rw [hk]
      exact List.mem_cons_self
    · exact List.mem_cons_of_mem _ (ih h)

/-- Where keys are distinct, an entry is what is found under its key. -/
theorem find?_eq_some_iff {key : String} {value : α} {entries : List (String × α)}
    (h : (keys entries).Nodup) : find? key entries = some value ↔ (key, value) ∈ entries := by
  refine ⟨mem_of_find?, fun hmem => ?_⟩
  induction entries with
  | nil => cases hmem
  | cons first rest ih =>
    obtain ⟨k, v⟩ := first
    rw [keys, List.map_cons, List.nodup_cons] at h
    rw [find?]
    rcases List.mem_cons.mp hmem with heq | hmem
    · cases heq
      exact if_pos rfl
    · have hne : k ≠ key := by
        rintro rfl
        exact h.1 (List.mem_map.mpr ⟨_, hmem, rfl⟩)
      rw [if_neg hne]
      exact ih h.2 hmem

theorem find?_map {β : Type} (f : α → β) (key : String) (entries : List (String × α)) :
    find? key (entries.map fun entry => (entry.1, f entry.2)) = (find? key entries).map f := by
  induction entries with
  | nil => rfl
  | cons first rest ih =>
    obtain ⟨k, v⟩ := first
    rw [List.map_cons, find?, find?]
    split_ifs
    · rfl
    · exact ih

/-! ## Many insertions -/

theorem ofPairs_concat (pairs : List (String × α)) (key : String) (value : α) :
    ofPairs (pairs ++ [(key, value)]) = insert key value (ofPairs pairs) := by
  rw [ofPairs, List.foldl_append]
  rfl

/-- The keys stand in the order in which they come first. -/
theorem keys_ofPairs (pairs : List (String × α)) :
    keys (ofPairs pairs) = (keys pairs).eraseDups := by
  induction pairs using List.reverseRecOn with
  | nil => rfl
  | append_singleton pairs pair ih =>
    obtain ⟨key, value⟩ := pair
    have hkey : keys [(key, value)] = [key] := rfl
    rw [ofPairs_concat, keys_insert, ih, keys_append, hkey, eraseDups_concat]
    simp only [List.mem_eraseDups]

theorem nodup_keys_ofPairs (pairs : List (String × α)) : (keys (ofPairs pairs)).Nodup := by
  rw [keys_ofPairs]
  exact nodup_eraseDups _

/-- A key has the value of its last pair. -/
theorem find?_ofPairs {key : String} {after : List (String × α)} (h : key ∉ keys after)
    (before : List (String × α)) (value : α) :
    find? key (ofPairs (before ++ (key, value) :: after)) = some value := by
  induction after using List.reverseRecOn with
  | nil => rw [ofPairs_concat, find?_insert_self]
  | append_singleton after pair ih =>
    rw [keys_append, List.mem_append, not_or] at h
    have hne : key ≠ pair.1 := fun he => h.2 (by simp [keys, he])
    rw [← List.cons_append, ← List.append_assoc, ofPairs_concat, find?_insert_of_ne hne]
    exact ih h.1

/-- The first pair of a key from the end on has its value. -/
theorem find?_ofPairs_eq (key : String) (pairs : List (String × α)) :
    find? key (ofPairs pairs) = find? key pairs.reverse := by
  induction pairs using List.reverseRecOn with
  | nil => rfl
  | append_singleton pairs pair ih =>
    rw [ofPairs_concat, List.reverse_append, List.reverse_singleton, List.singleton_append, find?]
    split_ifs with h
    · rw [h, find?_insert_self]
    · rw [find?_insert_of_ne (Ne.symm h), ih]

theorem mem_of_mem_ofPairs {entry : String × α} {pairs : List (String × α)}
    (h : entry ∈ ofPairs pairs) : entry ∈ pairs := by
  induction pairs using List.reverseRecOn with
  | nil => cases h
  | append_singleton pairs pair ih =>
    rw [ofPairs_concat] at h
    rcases mem_of_mem_insert h with rfl | h
    · exact List.mem_append_right _ List.mem_cons_self
    · exact List.mem_append_left _ (ih h)

theorem ofPairs_of_nodup {pairs : List (String × α)} (h : (keys pairs).Nodup) :
    ofPairs pairs = pairs := by
  induction pairs using List.reverseRecOn with
  | nil => rfl
  | append_singleton pairs pair ih =>
    rw [keys_append, List.nodup_append] at h
    have hkey : pair.1 ∉ keys pairs := fun hmem => h.2.2 _ hmem _ List.mem_cons_self rfl
    rw [ofPairs_concat, ih h.1, insert_of_not_mem hkey]

/-! ## Pairs with the same keys -/

/-- Pairs with the same keys one after the other, the values of which are related. -/
inductive Matched {α β : Type} (R : α → β → Prop) :
    List (String × α) → List (String × β) → Prop
  | nil : Matched R [] []
  | cons {key : String} {x : α} {y : β} {xs : List (String × α)} {ys : List (String × β)}
      (h : R x y) (rest : Matched R xs ys) : Matched R ((key, x) :: xs) ((key, y) :: ys)

namespace Matched

variable {β : Type} {R : α → β → Prop} {xs more : List (String × α)} {ys more' : List (String × β)}

theorem keys_eq (h : Matched R xs ys) : keys xs = keys ys := by
  induction h with
  | nil => rfl
  | cons _ _ ih => exact congrArg (List.cons _) ih

theorem append (h : Matched R xs ys) (hmore : Matched R more more') :
    Matched R (xs ++ more) (ys ++ more') := by
  induction h with
  | nil => exact hmore
  | cons h _ ih => exact .cons h ih

theorem reverse (h : Matched R xs ys) : Matched R xs.reverse ys.reverse := by
  induction h with
  | nil => exact .nil
  | cons h _ ih =>
    rw [List.reverse_cons, List.reverse_cons]
    exact ih.append (.cons h .nil)

theorem exists_find? (h : Matched R xs ys) {key : String} {x : α} (hx : find? key xs = some x) :
    ∃ y, find? key ys = some y ∧ R x y := by
  induction h with
  | nil => cases hx
  | cons h _ ih =>
    rw [find?] at hx ⊢
    split_ifs at hx ⊢ with hkey
    · cases hx
      exact ⟨_, rfl, h⟩
    · exact ih hx

/-- A key that is stored has a value related to the last one that it is matched with. -/
theorem find?_ofPairs (h : Matched R xs ys) {key : String} {x : α}
    (hx : find? key xs.reverse = some x) : ∃ y, find? key (ofPairs ys) = some y ∧ R x y := by
  rw [find?_ofPairs_eq]
  exact h.reverse.exists_find? hx

/-- Pairs can be matched if and only if each of their values is related to some value. -/
theorem exists_iff : (∃ ys, Matched R xs ys) ↔ ∀ pair ∈ xs, ∃ y, R pair.2 y := by
  induction xs with
  | nil => exact ⟨fun _ => List.forall_mem_nil _, fun _ => ⟨[], .nil⟩⟩
  | cons pair xs ih =>
    obtain ⟨key, x⟩ := pair
    rw [List.forall_mem_cons, ← ih]
    constructor
    · rintro ⟨_, _ | ⟨h, rest⟩⟩
      exact ⟨⟨_, h⟩, _, rest⟩
    · rintro ⟨⟨y, h⟩, ys, rest⟩
      exact ⟨(key, y) :: ys, .cons h rest⟩

end Matched

end ApiClient.Entries
