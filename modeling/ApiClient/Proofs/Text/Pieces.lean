import Mathlib.Tactic.Common
import Mathlib.Data.List.TakeWhile
import ApiClient.Text.Split

/-!
# Cutting a text where it was joined

* `takeWhile_append_of_head`, `dropWhile_append_of_head`: what stands before the first character
  that fails a test, and what stands from there on, with `takeWhile_append_cons` and
  `dropWhile_append_cons` where that character is known;
* `takeWhile_ne_append`, `dropWhile_ne_append`: the same for a separator;
* `split_of_not_mem`: a text without the separator is one piece;
* `split_intercalate`: pieces without the separator are found again;
* `not_mem_intercalate`: joining adds nothing but the separator.
-/

namespace ApiClient.Text

/-! ## At a character -/

theorem ne_of_test {p : Char → Bool} {c d : Char} (hc : p c = true) (hd : p d = false) :
    c ≠ d := by
  rintro rfl
  rw [hc] at hd
  cases hd

theorem takeWhile_append_of_head {p : Char → Bool} {s rest : List Char}
    (hs : ∀ d ∈ s, p d = true) (hrest : ∀ c ∈ rest.head?, p c = false) :
    (s ++ rest).takeWhile p = s := by
  cases rest with
  | nil => rw [List.append_nil, List.takeWhile_eq_self_iff.mpr hs]
  | cons c rest =>
    rw [List.takeWhile_append_of_pos hs, List.takeWhile_cons_of_neg (by simp [hrest c rfl]),
      List.append_nil]

theorem dropWhile_append_of_head {p : Char → Bool} {s rest : List Char}
    (hs : ∀ d ∈ s, p d = true) (hrest : ∀ c ∈ rest.head?, p c = false) :
    (s ++ rest).dropWhile p = rest := by
  cases rest with
  | nil => rw [List.append_nil, List.dropWhile_eq_nil_iff.mpr hs]
  | cons c rest =>
    rw [List.dropWhile_append_of_pos hs, List.dropWhile_cons_of_neg (by simp [hrest c rfl])]

theorem takeWhile_append_cons {p : Char → Bool} {s : List Char} {c : Char}
    (hs : ∀ d ∈ s, p d = true) (hc : p c = false) (rest : List Char) :
    (s ++ c :: rest).takeWhile p = s :=
  takeWhile_append_of_head hs (by simpa using hc)

theorem dropWhile_append_cons {p : Char → Bool} {s : List Char} {c : Char}
    (hs : ∀ d ∈ s, p d = true) (hc : p c = false) (rest : List Char) :
    (s ++ c :: rest).dropWhile p = c :: rest :=
  dropWhile_append_of_head hs (by simpa using hc)

/-! ## At a separator -/

variable {sep : Char}

theorem bne_of_not_mem {s : List Char} (h : sep ∉ s) : ∀ c ∈ s, (c != sep) = true := by
  intro c hc
  rw [bne_iff_ne]
  rintro rfl
  exact h hc

theorem takeWhile_ne_append {s : List Char} (h : sep ∉ s) (rest : List Char) :
    (s ++ sep :: rest).takeWhile (· != sep) = s :=
  takeWhile_append_cons (bne_of_not_mem h) (by simp) rest

theorem dropWhile_ne_append {s : List Char} (h : sep ∉ s) (rest : List Char) :
    (s ++ sep :: rest).dropWhile (· != sep) = sep :: rest :=
  dropWhile_append_cons (bne_of_not_mem h) (by simp) rest

theorem split_of_not_mem {s : List Char} (h : sep ∉ s) : split sep s = [s] := by
  induction s with
  | nil => rfl
  | cons c s ih =>
    rw [List.mem_cons, not_or] at h
    rw [split, if_neg (Ne.symm h.1), ih h.2]

theorem split_append {s : List Char} (h : sep ∉ s) (rest : List Char) :
    split sep (s ++ sep :: rest) = s :: split sep rest := by
  induction s with
  | nil => rw [List.nil_append, split, if_pos rfl]
  | cons c s ih =>
    rw [List.mem_cons, not_or] at h
    rw [List.cons_append, split, if_neg (Ne.symm h.1), ih h.2]

theorem split_intercalate {pieces : List (List Char)} (hne : pieces ≠ [])
    (h : ∀ piece ∈ pieces, sep ∉ piece) : split sep ([sep].intercalate pieces) = pieces := by
  induction pieces with
  | nil => exact absurd rfl hne
  | cons piece pieces ih =>
    have hp := h piece List.mem_cons_self
    cases pieces with
    | nil => simpa [List.intercalate] using split_of_not_mem hp
    | cons next pieces =>
      have ih := ih (List.cons_ne_nil next pieces) fun p hp => h p (List.mem_cons_of_mem piece hp)
      rw [List.intercalate_cons_cons, List.append_assoc, List.singleton_append, split_append hp, ih]

theorem not_mem_intercalate {c : Char} {between : List Char} {pieces : List (List Char)}
    (hb : c ∉ between) (hp : ∀ piece ∈ pieces, c ∉ piece) : c ∉ between.intercalate pieces := by
  induction pieces with
  | nil => simp
  | cons piece pieces ih =>
    have hpiece := hp piece List.mem_cons_self
    have ih := ih fun p h => hp p (List.mem_cons_of_mem piece h)
    cases pieces with
    | nil => simpa using hpiece
    | cons next pieces =>
      rw [List.intercalate_cons_cons, List.mem_append, List.mem_append, not_or, not_or]
      exact ⟨⟨hpiece, hb⟩, ih⟩

end ApiClient.Text
