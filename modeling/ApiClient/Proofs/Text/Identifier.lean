import Mathlib.Tactic.Common
import ApiClient.Text.Identifier

/-!
# Identifiers and their characters

* `IsItemName`, `isIdentifier_iff`: the names that are identifiers, letter by letter;
* `not_mem_of_isIdentifier`: an identifier has only characters that may continue one.
-/

namespace ApiClient.Text

/-- A letter of ASCII. -/
def IsLetter (c : Char) : Prop := 'a' ≤ c ∧ c ≤ 'z' ∨ 'A' ≤ c ∧ c ≤ 'Z'

/-- A letter or an underscore with letters, underscores and digits behind it, but neither a lone
underscore nor a keyword. -/
def IsItemName (name : String) : Prop :=
  (∃ c rest, name.toList = c :: rest ∧ (c = '_' ∨ IsLetter c) ∧
    ∀ d ∈ rest, d = '_' ∨ IsLetter d ∨ '0' ≤ d ∧ d ≤ '9') ∧ name ≠ "_" ∧ name ∉ keywords

theorem isAlpha_iff {c : Char} : c.isAlpha = true ↔ IsLetter c := by
  delta Char.isAlpha Char.isLower Char.isUpper
  rw [Bool.or_eq_true, or_comm, Bool.and_eq_true]
  simp only [decide_eq_true_eq]
  rfl

theorem opensIdentifier_iff {c : Char} : opensIdentifier c = true ↔ c = '_' ∨ IsLetter c := by
  rw [opensIdentifier, Bool.or_eq_true, beq_iff_eq, isAlpha_iff]

theorem continuesIdentifier_iff {c : Char} :
    continuesIdentifier c = true ↔ c = '_' ∨ IsLetter c ∨ '0' ≤ c ∧ c ≤ '9' := by
  rw [continuesIdentifier, Bool.or_eq_true, beq_iff_eq, Char.isAlphanum, Bool.or_eq_true,
    isAlpha_iff, Char.isDigit, Bool.and_eq_true]
  simp only [decide_eq_true_eq]
  rfl

/-- The names that can stand for an item are those that are made up of the right characters. -/
theorem isIdentifier_iff {name : String} : isIdentifier name = true ↔ IsItemName name := by
  rw [isIdentifier, IsItemName]
  cases hname : name.toList with
  | nil => simp
  | cons c rest =>
    simp only [Bool.and_eq_true, List.all_eq_true, opensIdentifier_iff, continuesIdentifier_iff,
      bne_iff_ne, Bool.not_eq_true', List.contains_eq_mem, decide_eq_false_iff_not,
      List.cons_eq_cons]
    constructor
    · rintro ⟨⟨⟨hc, hne⟩, hrest⟩, hkeyword⟩
      exact ⟨⟨c, rest, ⟨rfl, rfl⟩, hc, hrest⟩, hne, hkeyword⟩
    · rintro ⟨⟨_, _, ⟨rfl, rfl⟩, hc, hrest⟩, hne, hkeyword⟩
      exact ⟨⟨⟨hc, hne⟩, hrest⟩, hkeyword⟩

/-- Keywords are no identifiers, but names that begin with one are. -/
example : ["fn", "type", "Self", "type_", "Selfie"].map isIdentifier =
    [false, false, false, true, true] := by
  decide

theorem continuesIdentifier_of_opens {c : Char} (h : opensIdentifier c = true) :
    continuesIdentifier c = true := by
  rw [opensIdentifier, Bool.or_eq_true] at h
  rw [continuesIdentifier, Bool.or_eq_true]
  refine h.imp_right fun h => ?_
  rw [Char.isAlphanum, h, Bool.true_or]

theorem continuesIdentifier_of_mem {name : String} (h : isIdentifier name = true) {c : Char}
    (hc : c ∈ name.toList) : continuesIdentifier c = true := by
  unfold isIdentifier at h
  split at h
  · cases h
  · next first rest hname =>
    simp only [Bool.and_eq_true] at h
    rw [hname, List.mem_cons] at hc
    rcases hc with rfl | hc
    · exact continuesIdentifier_of_opens h.1.1.1
    · exact List.all_eq_true.mp h.1.2 c hc

theorem not_mem_of_isIdentifier {name : String} (h : isIdentifier name = true) {c : Char}
    (hc : continuesIdentifier c = false) : c ∉ name.toList := by
  intro hmem
  rw [continuesIdentifier_of_mem h hmem] at hc
  cases hc

end ApiClient.Text
