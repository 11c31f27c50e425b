import Mathlib.Tactic.Common
import ApiClient.Json.Lexeme
import ApiClient.Json.Printer

/-!
# Strings are read back

* `SpellsChar`, `SpellsString`: the ways to write characters in a string;
* `units_spelled`, `string_spelled`: a string ends at its own closing quote and stands for the
  characters that are written;
* `spells_escape`, `spells_escaped`: the compact form of a character and that of a text are among
  these ways.
-/

namespace ApiClient.Json

/-- The ways to write a character in a string: as it is, by a letter, by its code, or by the codes
of a pair of surrogates. -/
inductive SpellsChar : Char → List Char → Prop
  | plain {c : Char} (hquote : c ≠ '"') (hslash : c ≠ '\\') (hcontrol : 0x20 ≤ c.toNat) :
      SpellsChar c [c]
  | letter {c x : Char} (h : plainEscape? c = some x) : SpellsChar x ['\\', c]
  | code {a b c d : Char} {n : Nat} (h : hex4? a b c d = some n) (hlow : isLowSurrogate n = false)
      (hhigh : isHighSurrogate n = false) : SpellsChar (Char.ofNat n) ['\\', 'u', a, b, c, d]
  | pair {a b c d a' b' c' d' : Char} {high low : Nat} (h : hex4? a b c d = some high)
      (hhigh : isHighSurrogate high = true) (h' : hex4? a' b' c' d' = some low)
      (hlow : isLowSurrogate low = true) :
      SpellsChar (pairChar high low) ['\\', 'u', a, b, c, d, '\\', 'u', a', b', c', d']

/-- The ways to write a text in a string. -/
inductive SpellsString : List Char → List Char → Prop
  | nil : SpellsString [] []
  | cons {c : Char} {content s more : List Char} (h : SpellsChar c s)
      (rest : SpellsString content more) : SpellsString (c :: content) (s ++ more)

/-! ## Characters -/

theorem isLowSurrogate_of_high {n : Nat} (h : isHighSurrogate n = true) :
    isLowSurrogate n = false := by
  rw [isHighSurrogate, Bool.and_eq_true, decide_eq_true_eq, decide_eq_true_eq] at h
  rw [isLowSurrogate, Bool.and_eq_false_iff]
  exact .inl (decide_eq_false (by omega))

theorem units_letter {c x : Char} (h : plainEscape? c = some x) (s : List Char) :
    units .text ('\\' :: c :: s) = prepend [x] (units .text s) := by
  have hu : c ≠ 'u' := by
    rintro rfl
    cases h
  rw [units, if_neg hu, h]
  rintro a b c d s rfl
  exact absurd rfl hu

theorem units_plain {c : Char} (hquote : c ≠ '"') (hslash : c ≠ '\\') (h : ¬ c.toNat < 0x20)
    (s : List Char) : units .text (c :: s) = prepend [c] (units .text s) := by
  rw [units, if_neg hquote, if_neg hslash, if_neg h]
  · rintro a b c d s rfl
    exact absurd rfl hslash
  · rintro c s rfl
    exact absurd rfl hslash

/-- A character is read as itself, however it is written. -/
theorem units_char {c : Char} {s : List Char} (h : SpellsChar c s) (rest : List Char) :
    units .text (s ++ rest) = prepend [c] (units .text rest) := by
  cases h with
  | plain hquote hslash hcontrol => exact units_plain hquote hslash (Nat.not_lt.mpr hcontrol) rest
  | letter h => exact units_letter h rest
  | code h hlow hhigh =>
    simp only [List.cons_append, List.nil_append]
    rw [units, h]
    simp only [hlow, hhigh, Bool.false_eq_true, if_false]
    rfl
  | pair h hhigh h' hlow =>
    simp only [List.cons_append, List.nil_append]
    rw [units, h]
    simp only [isLowSurrogate_of_high hhigh, hhigh, Bool.false_eq_true, if_false, if_true, h', hlow]
    rfl

theorem hex4?_digits {n : Nat} (h : n < 0x100) :
    hex4? '0' '0' (Text.Hex.digit (n / 16)) (Text.Hex.digit (n % 16)) = some n := by
  have hzero : Text.Hex.value? '0' = some 0 := by decide
  rw [hex4?, hzero, Text.Hex.value?_digit _ (by omega), Text.Hex.value?_digit _ (by omega)]
  simp only [Option.bind_eq_bind, Option.bind_some, Option.pure_def]
  congr 1
  omega

/-- The form of a character is a way to write it. -/
theorem spells_escape (c : Char) : SpellsChar c (escape c) := by
  unfold escape
  split_ifs with hquote hslash hb hf hn hr ht hcontrol
  any_goals
    subst_vars
    exact .letter rfl
  · have hlow : isLowSurrogate c.toNat = false := by
      rw [isLowSurrogate, Bool.and_eq_false_iff]
      exact .inl (decide_eq_false (by omega))
    have hhigh : isHighSurrogate c.toNat = false := by
      rw [isHighSurrogate, Bool.and_eq_false_iff]
      exact .inl (decide_eq_false (by omega))
    have hcode := SpellsChar.code (hex4?_digits (n := c.toNat) (by omega)) hlow hhigh
    rwa [Char.ofNat_toNat] at hcode
  · exact .plain hquote hslash (Nat.not_lt.mp hcontrol)

/-! ## Strings -/

/-- What is written is read up to the closing quote behind it. -/
theorem units_spelled {content s : List Char} (h : SpellsString content s) (rest : List Char) :
    units .text (s ++ '"' :: rest) = .ok (content, rest) := by
  induction h with
  | nil => rfl
  | cons h _ ih =>
    rw [List.append_assoc, units_char h, ih]
    rfl

/-- A string ends at its own closing quote and stands for the text that is written. -/
theorem string_spelled {content : String} {s : List Char} (h : SpellsString content.toList s)
    (rest : List Char) : string .text (s ++ '"' :: rest) = .ok (content, rest) := by
  rw [string, units_spelled h]
  exact congrArg (fun t => Except.ok (t, rest)) String.ofList_toList

theorem spells_escaped (content : List Char) : SpellsString content (content.flatMap escape) := by
  induction content with
  | nil => exact .nil
  | cons c content ih => exact .cons (spells_escape c) ih

end ApiClient.Json
