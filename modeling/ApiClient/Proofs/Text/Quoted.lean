import Mathlib.Tactic.Common
import ApiClient.Text.Quoted

/-!
# Literals are read back

* `le_of_mem_escape`, `not_mem_quoteChars`: a literal has no control characters, so that it never
  leaves its line;
* `ne_of_mem_braces`: a code point in its braces cannot end a literal;
* `scan_toDigits`: the digits of a code point give it back;
* `scan_quoted`: whatever a text holds, its literal ends at its own closing quote and gives the text
  back;
* `length_of_scan`: a literal takes a character at least.
-/

namespace ApiClient.Text.Quoted

/-! ## Digits -/

theorem mem_toDigits {n : Nat} {c : Char} (h : c ∈ Nat.toDigits 16 n) :
    ∃ d < 16, c = Nat.digitChar d := by
  induction n using Nat.strongRecOn with
  | ind n ih =>
    rw [Nat.toDigits_eq_if (by decide)] at h
    split at h
    · next hn => exact ⟨n, hn, List.mem_singleton.mp h⟩
    · rcases List.mem_append.mp h with h | h
      · exact ih (n / 16) (by omega) h
      · exact ⟨n % 16, by omega, List.mem_singleton.mp h⟩

/-- A code point in its braces has neither quotes nor backslashes. -/
theorem ne_of_mem_braces {n : Nat} {c : Char} (h : c ∈ '{' :: (Nat.toDigits 16 n ++ ['}'])) :
    c ≠ '"' ∧ c ≠ '\\' := by
  have hdigit : ∀ d < 16, Nat.digitChar d ≠ '"' ∧ Nat.digitChar d ≠ '\\' := by decide
  rw [List.mem_cons, List.mem_append, List.mem_singleton] at h
  obtain rfl | h | rfl := h
  · decide
  · obtain ⟨d, hd, rfl⟩ := mem_toDigits h
    exact hdigit d hd
  · decide

theorem value?_digitChar : ∀ d < 16, Hex.value? (Nat.digitChar d) = some d := by decide

theorem digitChar_ne : ∀ d < 16, Nat.digitChar d ≠ '}' := by decide

theorem le_digitChar : ∀ d < 16, 0x20 ≤ (Nat.digitChar d).toNat := by decide

theorem scan_digitChar {d : Nat} (hd : d < 16) (n : Nat) (s : List Char) :
    scan (some n) (Nat.digitChar d :: s) = scan (some (16 * n + d)) s := by
  rw [scan, if_neg (digitChar_ne d hd), value?_digitChar d hd]
  rfl

theorem scan_toDigits (n : Nat) (s : List Char) :
    scan (some 0) (Nat.toDigits 16 n ++ s) = scan (some n) s := by
  induction n using Nat.strongRecOn generalizing s with
  | ind n ih =>
    rw [Nat.toDigits_eq_if (by decide)]
    split
    · next hn =>
      rw [List.singleton_append, scan_digitChar hn]
      simp
    · next hn =>
      rw [List.append_assoc, ih (n / 16) (by omega), List.singleton_append,
        scan_digitChar (by omega), show 16 * (n / 16) + n % 16 = n by omega]

/-! ## Characters -/

theorem inRanges_of_head {n low high : Nat} {ranges : List (Nat × Nat)} (hl : low ≤ n)
    (hh : n ≤ high) : inRanges n ((low, high) :: ranges) = true := by
  simp [inRanges, hl, hh]

theorem le_of_isShown {c : Char} (h : isShown c = true) : 0x20 ≤ c.toNat := by
  by_contra hc
  have hin : inRanges c.toNat unprintable = true := inRanges_of_head (Nat.zero_le _) (by omega)
  rw [isShown, hin] at h
  cases h

theorem le_of_mem_codePoint {c d : Char} (h : d ∈ codePoint c) : 0x20 ≤ d.toNat := by
  simp only [codePoint, List.mem_cons, List.mem_append, List.not_mem_nil, or_false] at h
  rcases h with rfl | rfl | rfl | h | rfl
  · decide
  · decide
  · decide
  · obtain ⟨n, hn, rfl⟩ := mem_toDigits h
    exact le_digitChar n hn
  · decide

/-- A literal has no control characters. -/
theorem le_of_mem_escape {c d : Char} (h : d ∈ escape c) : 0x20 ≤ d.toNat := by
  unfold escape at h
  split_ifs at h with h₁ h₂ h₃ h₄ h₅ h₆ h₇
  any_goals
    simp only [List.mem_cons, List.not_mem_nil, or_false] at h
    rcases h with rfl | rfl <;> decide
  · obtain rfl := List.mem_singleton.mp h
    exact le_of_isShown h₇
  · exact le_of_mem_codePoint h

/-- A literal stays on its line. -/
theorem not_mem_quoteChars {c : Char} (hc : c.toNat < 0x20) (s : List Char) :
    c ∉ quoteChars s := by
  simp only [quoteChars, List.mem_cons, List.mem_append, List.mem_flatMap, List.not_mem_nil,
    or_false]
  rintro (rfl | ⟨d, -, hd⟩ | rfl)
  · exact absurd hc (by decide)
  · exact absurd (le_of_mem_escape hd) (by omega)
  · exact absurd hc (by decide)

theorem scan_codePoint (c : Char) (s : List Char) :
    scan none (codePoint c ++ s) = (scan none s).map fun p => (c :: p.1, p.2) := by
  simp only [codePoint, List.cons_append, List.append_assoc, List.nil_append]
  rw [scan, scan_toDigits, scan, if_pos rfl, Char.ofNat_toNat]

theorem scan_of_ne {c : Char} (hq : c ≠ '"') (hb : c ≠ '\\') (s : List Char) :
    scan none (c :: s) = (scan none s).map fun p => (c :: p.1, p.2) := by
  simp [scan, hb]

theorem scan_escape (c : Char) (s : List Char) :
    scan none (escape c ++ s) = (scan none s).map fun p => (c :: p.1, p.2) := by
  unfold escape
  split_ifs with h₁ h₂ h₃ h₄ h₅ h₆ h₇
  -- six characters have an escape of their own
  any_goals
    subst c
    rfl
  · exact scan_of_ne h₁ h₂ s
  · exact scan_codePoint c s

theorem scan_quoted (s rest : List Char) :
    scan none (s.flatMap escape ++ '"' :: rest) = some (s, rest) := by
  induction s with
  | nil => rw [List.flatMap_nil, List.nil_append, scan]
  | cons c s ih =>
    rw [List.flatMap_cons, List.append_assoc, scan_escape, ih]
    rfl

theorem length_of_scan {n? : Option Nat} {s t rest : List Char}
    (h : scan n? s = some (t, rest)) : rest.length < s.length := by
  fun_induction scan n? s generalizing t rest with
  | case1 => cases h
  | case2 n s ih =>
    obtain ⟨⟨t', rest'⟩, hs, he⟩ := Option.map_eq_some_iff.mp h
    cases he
    exact Nat.lt_succ_of_lt (ih hs)
  | case3 n c s hc ih =>
    obtain ⟨d, -, hs⟩ := Option.bind_eq_some_iff.mp h
    exact Nat.lt_succ_of_lt (ih d hs)
  | case4 s =>
    cases h
    exact Nat.lt_succ_self _
  | case5 s ih =>
    have hlt := ih h
    simp only [List.length_cons]
    omega
  | case6 c s hu plain =>
    rename_i ih
    obtain ⟨x, -, hmap⟩ := Option.bind_eq_some_iff.mp h
    obtain ⟨⟨t', rest'⟩, hs, he⟩ := Option.map_eq_some_iff.mp hmap
    cases he
    have hlt := ih hs
    simp only [List.length_cons]
    omega
  | case7 => cases h
  | case8 c s hq hu hb hc ih =>
    obtain ⟨⟨t', rest'⟩, hs, he⟩ := Option.map_eq_some_iff.mp h
    cases he
    exact Nat.lt_succ_of_lt (ih hs)

end ApiClient.Text.Quoted
