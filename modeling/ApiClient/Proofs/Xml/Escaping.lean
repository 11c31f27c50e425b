import Mathlib.Tactic.Common
import ApiClient.Proofs.Results
import ApiClient.Xml.Reference

/-!
# Escaped character data

* `not_mem_escape`: none of the characters that end character data or a value is left in it;
* `escape_of_not_special`: data without such characters is its own escaped form;
* `unescape_escape`: replacing the references gives the data back;
* `unescape_append`, `unescape_append_left`: data without references can be put to both ends.
-/

namespace ApiClient.Xml

/-- A character that is written as a reference. -/
def IsSpecial (c : Char) : Prop := c = '<' ∨ c = '>' ∨ c = '&' ∨ c = '\'' ∨ c = '"'

theorem escapeChar_of_not_special {c : Char} (h : ¬ IsSpecial c) : escapeChar c = [c] := by
  simp only [IsSpecial, not_or] at h
  obtain ⟨h₁, h₂, h₃, h₄, h₅⟩ := h
  simp [escapeChar, h₁, h₂, h₃, h₄, h₅]

@[simp] theorem escape_nil : escape [] = [] := rfl

theorem escape_cons (c : Char) (s : List Char) : escape (c :: s) = escapeChar c ++ escape s := by
  simp [escape]

theorem escape_append (s t : List Char) : escape (s ++ t) = escape s ++ escape t := by
  simp [escape]

theorem escape_of_not_special {s : List Char} (h : ∀ c ∈ s, ¬ IsSpecial c) : escape s = s := by
  induction s with
  | nil => rfl
  | cons c s ih =>
    rw [escape_cons, escapeChar_of_not_special (h c List.mem_cons_self),
      ih fun d hd => h d (List.mem_cons_of_mem c hd), List.singleton_append]

theorem escapeChar_ne_nil (c : Char) : escapeChar c ≠ [] := by
  unfold escapeChar
  split_ifs <;> simp

theorem escape_ne_nil {s : List Char} (h : s ≠ []) : escape s ≠ [] := by
  cases s with
  | nil => exact absurd rfl h
  | cons c s =>
    rw [escape_cons]
    exact List.append_ne_nil_of_left_ne_nil (escapeChar_ne_nil c) _

/-- The brackets and the quotes do not occur in escaped data. -/
theorem not_mem_escape {d : Char} (h : d = '<' ∨ d = '>' ∨ d = '\'' ∨ d = '"') (s : List Char) :
    d ∉ escape s := by
  intro hd
  rw [escape, List.mem_flatMap] at hd
  obtain ⟨c, -, hd⟩ := hd
  by_cases hc : IsSpecial c
  · rcases hc with rfl | rfl | rfl | rfl | rfl <;> rcases h with rfl | rfl | rfl | rfl <;>
      revert hd <;> decide
  · rw [escapeChar_of_not_special hc, List.mem_singleton] at hd
    subst hd
    exact hc (by rcases h with h | h | h | h <;> simp [IsSpecial, h])

/-! ## Reading back -/

theorem unescapeFrom_escapeChar (offset : Nat) (c : Char) (s : List Char) :
    ∃ offset', unescapeFrom offset none (escapeChar c ++ s) =
      (c :: ·) <$> unescapeFrom offset' none s := by
  by_cases hc : IsSpecial c
  · rcases hc with rfl | rfl | rfl | rfl | rfl <;>
      exact ⟨_, by simp [escapeChar, unescapeFrom, Reference.character, Reference.predefined?]; rfl⟩
  · have hne : c ≠ '&' := by
      rintro rfl
      exact hc (by simp [IsSpecial])
    rw [escapeChar_of_not_special hc, List.singleton_append]
    exact ⟨offset + c.utf8Size, by simp [unescapeFrom, hne]⟩

theorem unescapeFrom_escape (offset : Nat) (s : List Char) :
    unescapeFrom offset none (escape s) = .ok s := by
  induction s generalizing offset with
  | nil => rfl
  | cons c s ih =>
    rw [escape_cons]
    obtain ⟨offset', h⟩ := unescapeFrom_escapeChar offset c (escape s)
    rw [h, ih]
    rfl

theorem unescape_escape (s : List Char) : unescape (escape s) = .ok s := unescapeFrom_escape 0 s

/-! ## Data without references at the ends -/

theorem character_agree (start start' : Nat) (name : List Char) :
    Agree (· = ·) (Reference.character start name) (Reference.character start' name) := by
  unfold Reference.character
  split
  · exact .refl _
  · split
    · exact .ok rfl
    · exact .error _ _

/-- Data without references is its own text, if no reference is open. -/
theorem unescapeFrom_plain {gap : List Char} (h : ∀ c ∈ gap, c ≠ '&' ∧ c ≠ ';') (offset : Nat) :
    unescapeFrom offset none gap = .ok gap := by
  induction gap generalizing offset with
  | nil => rfl
  | cons c gap ih =>
    rw [List.forall_mem_cons] at h
    simp only [unescapeFrom, h.1.1, if_false, ih h.2]
    rfl

/-- Data without a semicolon does not end a reference. -/
theorem exists_unescapeFrom_opened {gap : List Char} (h : ∀ c ∈ gap, c ≠ '&' ∧ c ≠ ';')
    (offset start : Nat) (name : List Char) :
    ∃ fault, unescapeFrom offset (some (start, name)) gap = .error fault := by
  induction gap generalizing offset name with
  | nil => exact ⟨_, rfl⟩
  | cons c gap ih =>
    rw [List.forall_mem_cons] at h
    simp only [unescapeFrom, h.1.1, h.1.2, if_false]
    exact ih h.2 _ _

/-- Offsets do not count for the text of data, and data without references can be put behind it. -/
theorem unescapeFrom_append {gap : List Char} (h : ∀ c ∈ gap, c ≠ '&' ∧ c ≠ ';') (s : List Char) :
    (∀ offset offset', Agree (fun u v => v = u ++ gap) (unescapeFrom offset none s)
      (unescapeFrom offset' none (s ++ gap))) ∧
    ∀ offset offset' start start' name, Agree (fun u v => v = u ++ gap)
      (unescapeFrom offset (some (start, name)) s)
      (unescapeFrom offset' (some (start', name)) (s ++ gap)) := by
  induction s with
  | nil =>
    constructor
    · intro offset offset'
      rw [List.nil_append, unescapeFrom_plain h]
      exact .ok rfl
    · intro offset offset' start start' name
      obtain ⟨fault, hfault⟩ := exists_unescapeFrom_opened h offset' start' name
      rw [List.nil_append, hfault]
      exact .error _ _
  | cons c s ih =>
    rw [List.cons_append]
    constructor
    · intro offset offset'
      by_cases hc : c = '&'
      · simp only [unescapeFrom, hc, if_true]
        exact ih.2 _ _ _ _ _
      · simp only [unescapeFrom, hc, if_false]
        refine (ih.1 _ _).map fun u v huv => ?_
        rw [huv, List.cons_append]
    · intro offset offset' start start' name
      by_cases hsemicolon : c = ';'
      · simp only [unescapeFrom, hsemicolon, if_true]
        refine (character_agree start start' name).bind fun x y hxy => ?_
        refine (ih.1 _ _).map fun u v huv => ?_
        rw [hxy, huv, List.cons_append]
      · by_cases hc : c = '&'
        · simp only [unescapeFrom, hc, if_true]
          exact .error _ _
        · simp only [unescapeFrom, hsemicolon, hc, if_false]
          exact ih.2 _ _ _ _ _

theorem unescape_append {gap : List Char} (h : ∀ c ∈ gap, c ≠ '&' ∧ c ≠ ';') (s : List Char) :
    Agree (fun u v => v = u ++ gap) (unescape s) (unescape (s ++ gap)) :=
  (unescapeFrom_append h s).1 0 0

theorem unescapeFrom_append_left {gap : List Char} (h : ∀ c ∈ gap, c ≠ '&' ∧ c ≠ ';')
    (s : List Char) (offset offset' : Nat) :
    Agree (fun u v => v = gap ++ u) (unescapeFrom offset none s)
      (unescapeFrom offset' none (gap ++ s)) := by
  induction gap generalizing offset' with
  | nil =>
    have hself := (unescapeFrom_append h s).1 offset offset'
    simpa using hself
  | cons c gap ih =>
    rw [List.forall_mem_cons] at h
    simp only [List.cons_append, unescapeFrom, h.1.1, if_false]
    have hgap := (ih h.2 (offset' + c.utf8Size)).map (f := id) (g := (c :: ·))
      (S := fun u v => v = c :: (gap ++ u)) fun u v huv => congrArg (c :: ·) huv
    rwa [id_map] at hgap

theorem unescape_append_left {gap : List Char} (h : ∀ c ∈ gap, c ≠ '&' ∧ c ≠ ';')
    (s : List Char) : Agree (fun u v => v = gap ++ u) (unescape s) (unescape (gap ++ s)) :=
  unescapeFrom_append_left h s 0 0

end ApiClient.Xml
