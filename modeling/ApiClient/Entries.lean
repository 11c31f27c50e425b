/-!
# Entries in the order of insertion

A map is a list of pairs with distinct keys. Inserting under a key that is there replaces its value
and keeps its position.

* `insert`, `ofPairs`: building;
* `find?`, `keys`: looking;
* `keys_insert`, `find?_insert_self`, `find?_insert_of_ne`, `isSome_find?_insert`: what inserting
  does to both;
* `insert_of_not_mem`: a new key goes to the end.
-/

namespace ApiClient.Entries

variable {α : Type}

/-- Puts `value` under `key`, in the place of that key's former value if there is one. -/
def insert (key : String) (value : α) : List (String × α) → List (String × α)
  | [] => [(key, value)]
  | (k, v) :: rest => if k = key then (k, value) :: rest else (k, v) :: insert key value rest

/-- The entries that inserting `pairs` one after the other gives. -/
def ofPairs (pairs : List (String × α)) : List (String × α) :=
  pairs.foldl (fun entries pair => insert pair.1 pair.2 entries) []

/-- The value under `key`. -/
def find? (key : String) : List (String × α) → Option α
  | [] => none
  | (k, v) :: rest => if k = key then some v else find? key rest

/-- The keys in order. -/
def keys (entries : List (String × α)) : List String := entries.map (·.1)

theorem keys_insert (key : String) (value : α) (entries : List (String × α)) :
    keys (insert key value entries) =
      if key ∈ keys entries then keys entries else keys entries ++ [key] := by
  induction entries with
  | nil => simp [insert, keys]
  | cons p rest ih =>
    obtain ⟨k, v⟩ := p
    by_cases h : k = key
    · simp [insert, keys, h]
    · simp only [keys] at ih
      have h' : ¬ key = k := fun e => h e.symm
      simp only [insert, h, if_false, keys, List.map_cons, List.mem_cons, h', false_or, ih]
      split <;> simp_all

theorem insert_of_not_mem {key : String} {entries : List (String × α)} (h : key ∉ keys entries)
    (value : α) : insert key value entries = entries ++ [(key, value)] := by
  induction entries with
  | nil => rfl
  | cons p rest ih =>
    obtain ⟨k, v⟩ := p
    rw [keys, List.map_cons, List.mem_cons, not_or] at h
    rw [insert, if_neg (Ne.symm h.1), ih h.2, List.cons_append]

theorem find?_insert_self (key : String) (value : α) (entries : List (String × α)) :
    find? key (insert key value entries) = some value := by
  induction entries with
  | nil => simp [insert, find?]
  | cons p rest ih =>
    obtain ⟨k, v⟩ := p
    by_cases h : k = key <;> simp [insert, find?, h, ih]

theorem find?_insert_of_ne {key other : String} (h : other ≠ key) (value : α)
    (entries : List (String × α)) :
    find? other (insert key value entries) = find? other entries := by
  induction entries with
  | nil => simp [insert, find?, Ne.symm h]
  | cons p rest ih =>
    obtain ⟨k, v⟩ := p
    by_cases hk : k = key
    · subst hk
      simp [insert, find?, Ne.symm h]
    · simp [insert, find?, hk, ih]

theorem isSome_find?_insert {key other : String} {value : α} {entries : List (String × α)} :
    (find? other (insert key value entries)).isSome ↔
      other = key ∨ (find? other entries).isSome := by
  by_cases h : other = key
  · simp [h, find?_insert_self]
  · simp [h, find?_insert_of_ne h]

end ApiClient.Entries
