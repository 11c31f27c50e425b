import Mathlib.Data.List.DropRight
import Mathlib.Data.List.TakeWhile
import ApiClient.Text.Trim

/-!
# What trimming leaves

* `strip_eq_nil_iff`: nothing is left of a text exactly if every character is dropped;
* `exists_strip_eq`: what is left is a part of the text, between characters that are dropped;
* `strip_eq_self`: nothing is dropped where no character has to be;
* `strip_append`: characters that are dropped can be put to both ends;
* `head?_strip`, `getLast?_strip`: what is left neither begins nor ends with a dropped character;
* `strip_flatMap`: a text that is put together loses whole pieces at its ends, if the other pieces
  begin and end with characters that stay.
-/

namespace ApiClient.Text

theorem strip_eq_nil_iff {p : Char → Bool} {s : List Char} :
    strip p s = [] ↔ ∀ c ∈ s, p c = true := by
  rw [strip, dropTail, List.reverse_eq_nil_iff, List.dropWhile_eq_nil_iff]
  simp only [List.mem_reverse]
  constructor
  · intro h c hc
    by_cases hd : c ∈ s.dropWhile p
    · exact h c hd
    · rw [← List.takeWhile_append_dropWhile (p := p) (l := s), List.mem_append] at hc
      exact List.mem_takeWhile_imp (hc.resolve_right hd)
  · intro h c hc
    exact h c ((List.dropWhile_sublist p).mem hc)

theorem strip_append {p : Char → Bool} {before after : List Char} (hb : ∀ c ∈ before, p c = true)
    (ha : ∀ c ∈ after, p c = true) (s : List Char) :
    strip p (before ++ s ++ after) = strip p s := by
  rw [strip, List.append_assoc, List.dropWhile_append_of_pos hb]
  by_cases hs : ∀ c ∈ s, p c = true
  · rw [strip_eq_nil_iff.mpr hs, ← strip, strip_eq_nil_iff]
    exact List.forall_mem_append.mpr ⟨hs, ha⟩
  · -- something is left of `s`, so that the characters behind it are dropped from the end
    have hne : (s.dropWhile p).isEmpty = false := by
      rw [List.isEmpty_eq_false_iff, ne_eq, List.dropWhile_eq_nil_iff]
      exact hs
    rw [List.dropWhile_append, hne]
    simp only [Bool.false_eq_true, if_false]
    rw [dropTail, List.reverse_append, List.dropWhile_append_of_pos (by simpa using ha)]
    rfl

/-- What is left of a text, and what has been dropped at its ends. -/
theorem exists_strip_eq (p : Char → Bool) (s : List Char) :
    ∃ before after, s = before ++ strip p s ++ after ∧ (∀ c ∈ before, p c = true) ∧
      ∀ c ∈ after, p c = true := by
  refine ⟨s.takeWhile p, ((s.dropWhile p).reverse.takeWhile p).reverse, ?_,
    fun c hc => List.mem_takeWhile_imp hc,
    fun c hc => List.mem_takeWhile_imp (List.mem_reverse.mp hc)⟩
  have hend : dropTail p (s.dropWhile p) ++ ((s.dropWhile p).reverse.takeWhile p).reverse =
      s.dropWhile p := by
    rw [dropTail, ← List.reverse_append, List.takeWhile_append_dropWhile, List.reverse_reverse]
  rw [strip, List.append_assoc, hend, List.takeWhile_append_dropWhile]

theorem strip_eq_self {p : Char → Bool} {s : List Char} (h : ∀ c ∈ s, p c = false) :
    strip p s = s := by
  have hkeep : ∀ {t : List Char}, (∀ c ∈ t, p c = false) → t.dropWhile p = t := by
    intro t ht
    cases t with
    | nil => rfl
    | cons c t => exact List.dropWhile_cons_of_neg (by simp [ht c List.mem_cons_self])
  rw [strip, hkeep h, dropTail, hkeep (by simpa using h), List.reverse_reverse]

/-! ## The ends of what is left -/

variable {p : Char → Bool} {c : Char}

theorem head?_dropWhile_ne (h : p c = true) (s : List Char) : (s.dropWhile p).head? ≠ some c := by
  intro hc
  have hnot := List.head?_dropWhile_not p s
  rw [hc] at hnot
  exact Bool.noConfusion (h.symm.trans hnot)

theorem getLast?_dropTail (h : p c = true) (s : List Char) : (dropTail p s).getLast? ≠ some c := by
  rw [dropTail, List.getLast?_reverse]
  exact head?_dropWhile_ne h s.reverse

theorem getLast?_strip (h : p c = true) (s : List Char) : (strip p s).getLast? ≠ some c :=
  getLast?_dropTail h _

theorem head?_strip (h : p c = true) (s : List Char) : (strip p s).head? ≠ some c := by
  intro hc
  obtain ⟨rest, hrest⟩ := List.head?_eq_some_iff.mp hc
  -- what trimming the end leaves is a beginning
  obtain ⟨tail, htail⟩ := List.rdropWhile_prefix p (s.dropWhile p)
  refine head?_dropWhile_ne h s ?_
  rw [← htail, show (s.dropWhile p).rdropWhile p = c :: rest from hrest]
  rfl

/-! ## Texts put together from pieces -/

section Pieces

variable {α : Type} {q : α → Bool} {f : α → List Char} {l : List α}

theorem dropWhile_flatMap (hdrop : ∀ a ∈ l, q a = true → ∀ c ∈ f a, p c = true)
    (hkeep : ∀ a ∈ l, q a = false → ∃ c, (f a).head? = some c ∧ p c = false) :
    (l.flatMap f).dropWhile p = (l.dropWhile q).flatMap f := by
  induction l with
  | nil => rfl
  | cons a l ih =>
    rw [List.forall_mem_cons] at hdrop hkeep
    rw [List.flatMap_cons]
    cases hq : q a with
    | true =>
      rw [List.dropWhile_append_of_pos (hdrop.1 hq), List.dropWhile_cons_of_pos hq,
        ih hdrop.2 hkeep.2]
    | false =>
      obtain ⟨c, hc, hp⟩ := hkeep.1 hq
      obtain ⟨rest, hrest⟩ := List.head?_eq_some_iff.mp hc
      rw [hrest, List.cons_append, List.dropWhile_cons_of_neg (by simp [hp]),
        List.dropWhile_cons_of_neg (by simp [hq]), List.flatMap_cons, hrest, List.cons_append]

theorem dropTail_flatMap (hdrop : ∀ a ∈ l, q a = true → ∀ c ∈ f a, p c = true)
    (hkeep : ∀ a ∈ l, q a = false → ∃ c, (f a).getLast? = some c ∧ p c = false) :
    dropTail p (l.flatMap f) = (l.rdropWhile q).flatMap f := by
  -- the same from the other side
  have hreverse : (l.reverse.flatMap (List.reverse ∘ f)).dropWhile p =
      (l.reverse.dropWhile q).flatMap (List.reverse ∘ f) := by
    refine dropWhile_flatMap (fun a ha hq c hc => ?_) fun a ha hq => ?_
    · exact hdrop a (List.mem_reverse.mp ha) hq c (List.mem_reverse.mp hc)
    · obtain ⟨c, hc, hp⟩ := hkeep a (List.mem_reverse.mp ha) hq
      exact ⟨c, by rw [Function.comp_apply, List.head?_reverse, hc], hp⟩
  rw [dropTail, List.reverse_flatMap, hreverse, List.rdropWhile, List.reverse_flatMap]
  simp only [Function.comp_def, List.reverse_reverse]

theorem strip_flatMap (hdrop : ∀ a ∈ l, q a = true → ∀ c ∈ f a, p c = true)
    (hhead : ∀ a ∈ l, q a = false → ∃ c, (f a).head? = some c ∧ p c = false)
    (hlast : ∀ a ∈ l, q a = false → ∃ c, (f a).getLast? = some c ∧ p c = false) :
    strip p (l.flatMap f) = ((l.dropWhile q).rdropWhile q).flatMap f := by
  have hsub : ∀ a ∈ l.dropWhile q, a ∈ l := fun a ha => (List.dropWhile_sublist q).mem ha
  rw [strip, dropWhile_flatMap hdrop hhead]
  exact dropTail_flatMap (fun a ha => hdrop a (hsub a ha)) fun a ha => hlast a (hsub a ha)

end Pieces

end ApiClient.Text
