import Mathlib.Data.List.Forall2
import Mathlib.Data.List.Induction
import Mathlib.Data.List.Nodup
import Mathlib.Data.List.Perm.Subperm
import Mathlib.Tactic.Common

/-!
# Lists without repetitions, related item by item, and sorted

* `eraseDups_concat`, `nodup_eraseDups`, `eraseDups_of_nodup`: a list with the first element of
  each kind only;
* `exists_forall₂_iff`, `exists_getElem?_of_forall₂`, `forall₂_iff_map_eq`: a list whose elements
  are related to those of another one, place by place;
* `perm_iff_of_nodup`, `mergeSort_eq_mergeSort_iff`: lists with the same elements, and what sorting
  makes of them;
* `lookup_eq_none_iff`, `lookup_eq_of_perm`: what is found in a list of pairs.
-/

namespace ApiClient

/-! ## First occurrences -/

section FirstOccurrences

variable {α : Type} [BEq α] [LawfulBEq α]

/-- An element at the end of a list stays if it is the first of its kind. -/
theorem eraseDups_concat (as : List α) (a : α) :
    (as ++ [a]).eraseDups = if a ∈ as then as.eraseDups else as.eraseDups ++ [a] := by
  rw [List.eraseDups_append]
  split_ifs with h
  · simp [List.removeAll, h]
  · simp [List.removeAll, h, List.eraseDups_cons]

/-- An element that has been there before makes no difference. -/
theorem eraseDups_append_cons_of_mem {as : List α} {a : α} (h : a ∈ as) (bs : List α) :
    (as ++ a :: bs).eraseDups = (as ++ bs).eraseDups := by
  rw [List.eraseDups_append, List.eraseDups_append]
  simp [List.removeAll, h]

theorem nodup_eraseDups (as : List α) : as.eraseDups.Nodup := by
  induction as using List.reverseRecOn with
  | nil => exact List.nodup_nil
  | append_singleton as a ih =>
    rw [eraseDups_concat]
    split_ifs with h
    · exact ih
    · rw [← List.concat_eq_append, List.nodup_concat, List.mem_eraseDups]
      exact ⟨h, ih⟩

/-- A list without repetitions stays as it is. -/
theorem eraseDups_of_nodup {as : List α} (h : as.Nodup) : as.eraseDups = as := by
  induction as using List.reverseRecOn with
  | nil => rfl
  | append_singleton as a ih =>
    rw [← List.concat_eq_append, List.nodup_concat] at h
    rw [eraseDups_concat, if_neg h.1, ih h.2]

end FirstOccurrences

/-! ## Related elements -/

section Related

variable {α β : Type} {R : α → β → Prop} {xs : List α} {ys : List β}

theorem exists_forall₂_iff : (∃ ys, List.Forall₂ R xs ys) ↔ ∀ x ∈ xs, ∃ y, R x y := by
  induction xs with
  | nil => exact ⟨fun _ => List.forall_mem_nil _, fun _ => ⟨[], .nil⟩⟩
  | cons x xs ih =>
    rw [List.forall_mem_cons, ← ih]
    constructor
    · rintro ⟨_, _ | ⟨h, rest⟩⟩
      exact ⟨⟨_, h⟩, _, rest⟩
    · rintro ⟨⟨y, h⟩, ys, rest⟩
      exact ⟨y :: ys, .cons h rest⟩

theorem exists_getElem?_of_forall₂ (h : List.Forall₂ R xs ys) {i : Nat} {x : α}
    (hx : xs[i]? = some x) : ∃ y, ys[i]? = some y ∧ R x y := by
  induction h generalizing i with
  | nil => cases hx
  | cons h _ ih =>
    cases i with
    | zero =>
      cases hx
      exact ⟨_, rfl, h⟩
    | succ i => exact ih hx

/-- Elements related by what a function makes of them. -/
theorem forall₂_iff_map_eq {γ : Type} {f : α → γ} {g : β → γ}
    (h : ∀ x ∈ xs, ∀ y ∈ ys, R x y ↔ f x = g y) :
    List.Forall₂ R xs ys ↔ xs.map f = ys.map g := by
  induction xs generalizing ys with
  | nil => cases ys <;> simp
  | cons x xs ih =>
    cases ys with
    | nil => simp
    | cons y ys =>
      have hrest : ∀ x ∈ xs, ∀ y ∈ ys, R x y ↔ f x = g y := fun x hx y hy =>
        h x (List.mem_cons_of_mem _ hx) y (List.mem_cons_of_mem _ hy)
      rw [List.forall₂_cons, List.map_cons, List.map_cons, List.cons_eq_cons, ih hrest,
        h x List.mem_cons_self y List.mem_cons_self]

end Related

/-! ## The same elements in another order -/

section Sorting

variable {α : Type} {le : α → α → Bool} {xs ys : List α}

/-- A list without repetitions is another one in a different order if it is as long and everything
in it is in the other. -/
theorem perm_iff_of_nodup (h : xs.Nodup) :
    xs.Perm ys ↔ xs.length = ys.length ∧ ∀ x ∈ xs, x ∈ ys := by
  constructor
  · exact fun hperm => ⟨hperm.length_eq, fun x => hperm.mem_iff.mp⟩
  · rintro ⟨hlength, hmem⟩
    exact (List.subperm_of_subset h hmem).perm_of_length_le (Nat.le_of_eq hlength.symm)

/-- Lists become the same by sorting if and only if they have the same elements, provided that the
order tells these apart. -/
theorem mergeSort_eq_mergeSort_iff
    (trans : ∀ a b c, le a b = true → le b c = true → le a c = true)
    (total : ∀ a b, (le a b || le b a) = true)
    (antisymm : ∀ a ∈ xs, ∀ b ∈ xs, le a b = true → le b a = true → a = b) :
    xs.mergeSort le = ys.mergeSort le ↔ xs.Perm ys := by
  have hxs := List.mergeSort_perm xs le
  have hys := List.mergeSort_perm ys le
  constructor
  · intro h
    exact hxs.symm.trans (h ▸ hys)
  · intro h
    have hperm := hxs.trans (h.trans hys.symm)
    refine hperm.eq_of_pairwise (fun a b ha hb => antisymm a ?_ b ?_)
      (List.pairwise_mergeSort trans total xs) (List.pairwise_mergeSort trans total ys)
    · exact hxs.mem_iff.mp ha
    · exact h.mem_iff.mpr (hys.mem_iff.mp hb)

/-- Nothing is found under a key if and only if there is no pair with it. -/
theorem lookup_eq_none_iff {β : Type} [BEq α] [LawfulBEq α] {pairs : List (α × β)} {a : α} :
    pairs.lookup a = none ↔ a ∉ pairs.map (·.1) := by
  induction pairs with
  | nil => simp
  | cons pair pairs ih =>
    rw [List.lookup_cons, List.map_cons, List.mem_cons, not_or, ← ih]
    by_cases h : a = pair.1
    · simp [h]
    · simp [h, beq_false_of_ne h]

/-- What is found under a key does not depend on the order of pairs with distinct keys. -/
theorem lookup_eq_of_perm {β : Type} [BEq α] [LawfulBEq α] {pairs pairs' : List (α × β)}
    (h : pairs.Perm pairs') (hnodup : (pairs.map (·.1)).Nodup) (a : α) :
    pairs.lookup a = pairs'.lookup a := by
  induction h with
  | nil => rfl
  | cons pair _ ih =>
    rw [List.map_cons, List.nodup_cons] at hnodup
    rw [List.lookup_cons, List.lookup_cons, ih hnodup.2]
  | swap first second pairs =>
    have hne : second.1 ≠ first.1 := by
      rw [List.map_cons, List.map_cons, List.nodup_cons, List.mem_cons, not_or] at hnodup
      exact hnodup.1.1
    rw [List.lookup_cons, List.lookup_cons, List.lookup_cons, List.lookup_cons]
    by_cases hsecond : a = second.1
    · have hfirst : (a == first.1) = false := beq_false_of_ne (hsecond ▸ hne)
      rw [hfirst]
    · rw [beq_false_of_ne hsecond]
  | trans h _ ih ih' => exact (ih hnodup).trans (ih' ((h.map _).nodup_iff.mp hnodup))

end Sorting

end ApiClient
