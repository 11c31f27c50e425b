import Mathlib.Tactic.Common
import ApiClient.Endpoint
import ApiClient.Proofs.Results

/-!
# Valid endpoints

* `firstRepeated?_eq_none_iff`: names among which none is found twice;
* `firstRepeated?_eq_some_iff`: the name whose second occurrence comes first;
* `validate_eq_ok_iff`: what an endpoint is that passes the check.
-/

namespace ApiClient

theorem firstRepeatedFrom_eq_none_iff {seen names : List String} :
    firstRepeatedFrom seen names = none ↔ names.Nodup ∧ ∀ name ∈ names, name ∉ seen := by
  induction names generalizing seen with
  | nil => simp [firstRepeatedFrom]
  | cons name names ih =>
    by_cases h : name ∈ seen
    · simp [firstRepeatedFrom, h]
    · rw [firstRepeatedFrom, if_neg (by simpa using h), ih, List.nodup_cons]
      simp only [List.mem_cons, not_or, forall_eq_or_imp]
      constructor
      · rintro ⟨hnodup, hnew⟩
        exact ⟨⟨fun hmem => (hnew name hmem).1 rfl, hnodup⟩, h, fun n hn => (hnew n hn).2⟩
      · rintro ⟨⟨hmem, hnodup⟩, -, hnew⟩
        exact ⟨hnodup, fun n hn => ⟨fun he => hmem (he ▸ hn), hnew n hn⟩⟩

theorem firstRepeated?_eq_none_iff {names : List String} :
    firstRepeated? names = none ↔ names.Nodup := by
  simp [firstRepeated?, firstRepeatedFrom_eq_none_iff]

theorem firstRepeatedFrom_eq_some_iff {seen names : List String} {name : String} :
    firstRepeatedFrom seen names = some name ↔
      ∃ before after, names = before ++ name :: after ∧ before.Nodup ∧
        (∀ n ∈ before, n ∉ seen) ∧ (name ∈ before ∨ name ∈ seen) := by
  induction names generalizing seen with
  | nil => simp [firstRepeatedFrom]
  | cons next names ih =>
    rw [firstRepeatedFrom]
    by_cases h : next ∈ seen
    · rw [if_pos (by simpa using h), Option.some.injEq]
      constructor
      · rintro rfl
        exact ⟨[], names, rfl, .nil, by simp, .inr h⟩
      · rintro ⟨before, after, hn, -, hnew, -⟩
        cases before with
        | nil => exact (List.cons_eq_cons.mp hn).1
        | cons n before =>
          rw [(List.cons_eq_cons.mp hn).1] at h
          exact absurd h (hnew n List.mem_cons_self)
    · rw [if_neg (by simpa using h), ih]
      constructor
      · rintro ⟨before, after, rfl, hnodup, hnew, hmem⟩
        have hnext : next ∉ before := fun hm => (hnew next hm) List.mem_cons_self
        refine ⟨next :: before, after, rfl, List.nodup_cons.mpr ⟨hnext, hnodup⟩, ?_, ?_⟩
        · rw [List.forall_mem_cons]
          exact ⟨h, fun n hn hs => hnew n hn (List.mem_cons_of_mem next hs)⟩
        · rw [List.mem_cons] at hmem ⊢
          tauto
      · rintro ⟨before, after, hn, hnodup, hnew, hmem⟩
        cases before with
        | nil =>
          obtain ⟨rfl, -⟩ := List.cons_eq_cons.mp hn
          simp [h] at hmem
        | cons n before =>
          obtain ⟨rfl, rfl⟩ := List.cons_eq_cons.mp hn
          rw [List.nodup_cons] at hnodup
          rw [List.forall_mem_cons] at hnew
          refine ⟨before, after, rfl, hnodup.2, fun m hm => ?_, ?_⟩
          · rw [List.mem_cons, not_or]
            exact ⟨fun he => hnodup.1 (he ▸ hm), hnew.2 m hm⟩
          · rw [List.mem_cons] at hmem ⊢
            tauto

/-- The repeated name stands behind names that are all different, and is one of them. -/
theorem firstRepeated?_eq_some_iff {names : List String} {name : String} :
    firstRepeated? names = some name ↔
      ∃ before after, names = before ++ name :: after ∧ before.Nodup ∧ name ∈ before := by
  simp [firstRepeated?, firstRepeatedFrom_eq_some_iff]

namespace Endpoint

/-- An endpoint passes the check if its name is free for a function, its path has text and no fault,
and no parameter is declared twice. -/
theorem validate_eq_ok_iff {e : Endpoint} :
    e.validate = .ok () ↔
      Text.isIdentifier e.name = true ∧ e.name ∉ reservedNames ∧ e.hasEmptyPath = false ∧
        ∃ placeholders, Template.placeholders e.path = .ok placeholders ∧
          (e.params ++ placeholders).Nodup := by
  unfold validate
  dsimp only
  rw [check_eq_ok_iff, check_eq_ok_iff, check_eq_ok_iff, bind_eq_ok_iff]
  refine and_congr (by simp) (and_congr (by simp) (and_congr (by simp) ?_))
  refine exists_congr fun placeholders => ?_
  rw [Endpoint.placeholders, mapError_eq_ok_iff]
  refine and_congr_right fun _ => ?_
  rw [← firstRepeated?_eq_none_iff]
  cases firstRepeated? (e.params ++ placeholders) with
  | some parameter => simp [throw_ne_ok]
  | none => simp [pure_eq_ok_iff]

end Endpoint

end ApiClient
