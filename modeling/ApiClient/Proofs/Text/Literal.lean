import ApiClient.Proofs.Text.Quoted
import Mathlib.Data.List.Induction

/-!
# What a literal denotes

A compiler reads more forms of a literal than are ever written: bytes by two digits, code points
with digits of either case and underscores among them, line breaks that are left out.

* `Mode`, `step`, `run`, `decode`: the text that is spelled between two quotes, in any of the forms;
* `advance`, `split`: the place where a literal ends, which is the first quote that is not escaped;
* `advance_iff`: what is escaped, by the backslashes before it;
* `split_append`: text that stays open ends at the quote behind it, whatever else follows;
* `run_escape`, `Stays.escape`: what is written for one character spells it, and stays open;
* `quote_denotes`: both for whole literals.
-/

namespace ApiClient.Text.Literal

open Quoted (escape codePoint quote quoteChars)

/-! ## Decoding -/

/-- Where a reader is between the quotes. -/
inductive Mode where
  | plain
  /-- Behind a backslash. -/
  | escape
  /-- Behind `\x`, without and with its first digit. -/
  | byte (high? : Option Nat)
  /-- Behind `\u`. -/
  | brace
  /-- Inside of braces: how many digits there have been, and what they amount to. -/
  | codePoint (count value : Nat)
  /-- Behind an escaped line break, where blanks are left out. -/
  | gap
  deriving DecidableEq, Repr

/-- The character of an escape with one letter. -/
def short? (c : Char) : Option Char :=
  if c = 'n' then some '\n' else if c = 'r' then some '\r' else if c = 't' then some '\t'
  else if c = '0' then some (Char.ofNat 0)
  else if c = '\\' ∨ c = '"' ∨ c = Char.ofNat 0x27 then some c
  else none

/-- One character outside of an escape. -/
def stepPlain (c : Char) : Option (Mode × List Char) :=
  if c = '\\' then some (.escape, [])
  else if c = '"' ∨ c = '\r' then none
  else some (.plain, [c])

/-- What one character does: the mode behind it, and what it completes. -/
def step : Mode → Char → Option (Mode × List Char)
  | .plain, c => stepPlain c
  | .escape, c =>
    if c = 'x' then some (.byte none, [])
    else if c = 'u' then some (.brace, [])
    else if c = '\n' then some (.gap, [])
    else (short? c).map fun d => (.plain, [d])
  | .byte none, c => (Hex.value? c).bind fun high =>
    if high < 8 then some (.byte (some high), []) else none
  | .byte (some high), c => (Hex.value? c).map fun low => (.plain, [Char.ofNat (16 * high + low)])
  | .brace, c => if c = '{' then some (.codePoint 0 0, []) else none
  | .codePoint count value, c =>
    if c = '_' then if count = 0 then none else some (.codePoint count value, [])
    else if c = '}' then
      if count ≠ 0 ∧ value.isValidChar then some (.plain, [Char.ofNat value]) else none
    else (Hex.value? c).bind fun d =>
      if count < 6 then some (.codePoint (count + 1) (16 * value + d), []) else none
  | .gap, c =>
    if c = ' ' ∨ c = '\n' ∨ c = '\r' ∨ c = '\t' then some (.gap, []) else stepPlain c

/-- What a text does, character by character. -/
def run : Mode → List Char → Option (Mode × List Char)
  | mode, [] => some (mode, [])
  | mode, c :: text =>
    (step mode c).bind fun one => (run one.1 text).map fun more => (more.1, one.2 ++ more.2)

/-- The text that is spelled between two quotes. No escape may be left open at the end. -/
def decode (body : List Char) : Option (List Char) :=
  (run .plain body).bind fun read =>
    if read.1 = .plain ∨ read.1 = .gap then some read.2 else none

theorem run_append (mode : Mode) (a b : List Char) :
    run mode (a ++ b) =
      (run mode a).bind fun one => (run one.1 b).map fun more => (more.1, one.2 ++ more.2) := by
  induction a generalizing mode with
  | nil => simp [run]
  | cons c a ih =>
    simp only [List.cons_append, run, ih]
    cases step mode c with
    | none => rfl
    | some one =>
      dsimp only [Option.bind_some]
      cases run one.1 a with
      | none => rfl
      | some two => simp [Function.comp_def]

theorem run_of_step {mode mode' : Mode} {c : Char} (h : step mode c = some (mode', []))
    (text : List Char) : run mode (c :: text) = run mode' text := by
  simp [run, h]

theorem step_digitChar {d count : Nat} (hd : d < 16) (hcount : count < 6) (value : Nat) :
    step (.codePoint count value) (Nat.digitChar d) =
      some (.codePoint (count + 1) (16 * value + d), []) := by
  have hline : ∀ d < 16, Nat.digitChar d ≠ '_' := by decide
  rw [step, if_neg (hline d hd), if_neg (Quoted.digitChar_ne d hd), Quoted.value?_digitChar d hd,
    Option.bind_some, if_pos hcount]

/-- Up to six digits amount to their number. -/
theorem run_toDigits {n : Nat} (h : (Nat.toDigits 16 n).length ≤ 6) :
    run (.codePoint 0 0) (Nat.toDigits 16 n) =
      some (.codePoint (Nat.toDigits 16 n).length n, []) := by
  induction n using Nat.strongRecOn with
  | ind n ih =>
    rw [Nat.toDigits_eq_if (by decide)] at h ⊢
    split_ifs at h ⊢ with hn
    · rw [run_of_step (step_digitChar hn (by decide) 0), Nat.mul_zero, Nat.zero_add n]
      rfl
    · rw [List.length_append, List.length_singleton] at h
      rw [run_append, ih (n / 16) (by omega) (by omega), Option.bind_some,
        run_of_step (step_digitChar (Nat.mod_lt n (by decide)) h (n / 16)), Nat.div_add_mod,
        List.length_append, List.length_singleton]
      rfl

theorem length_toDigits_le (c : Char) : (Nat.toDigits 16 c.toNat).length ≤ 6 := by
  rw [Nat.length_toDigits_le_iff (by decide) (by decide)]
  have hvalid : c.toNat.isValidChar := c.valid
  rcases hvalid with h | ⟨-, h⟩ <;> omega

theorem run_codePoint (c : Char) : run .plain (codePoint c) = some (.plain, [c]) := by
  have hclose : step (.codePoint (Nat.toDigits 16 c.toNat).length c.toNat) '}' =
      some (.plain, [c]) := by
    have hpos : 0 < (Nat.toDigits 16 c.toNat).length := Nat.length_toDigits_pos
    rw [step, if_neg (by decide), if_pos rfl, if_pos ⟨by omega, c.valid⟩, Char.ofNat_toNat]
  rw [codePoint, run_of_step rfl, run_of_step rfl, run_of_step rfl, run_append,
    run_toDigits (length_toDigits_le c), Option.bind_some, run, hclose]
  rfl

/-- What is written for a character spells this character. -/
theorem run_escape (c : Char) : run .plain (escape c) = some (.plain, [c]) := by
  unfold escape
  split_ifs with h₁ h₂ h₃ h₄ h₅ h₆ h₇
  -- six characters have an escape of their own
  any_goals
    subst c
    rfl
  · simp [run, step, stepPlain, h₁, h₂, h₄]
  · exact run_codePoint c

theorem run_flatMap_escape (s : List Char) : run .plain (s.flatMap escape) = some (.plain, s) := by
  induction s with
  | nil => rfl
  | cons c s ih =>
    rw [List.flatMap_cons, run_append, run_escape, Option.bind_some, ih]
    rfl

theorem decode_flatMap_escape (s : List Char) : decode (s.flatMap escape) = some s := by
  rw [decode, run_flatMap_escape]
  rfl

/-! ## The end of a literal -/

/-- Whether the next character is escaped. -/
def advance (escaped : Bool) (c : Char) : Bool := !escaped && c = '\\'

/-- A line from behind an opening quote, split at the quote that ends the literal. -/
def split : Bool → List Char → Option (List Char × List Char)
  | _, [] => none
  | escaped, c :: line =>
    if c = '"' ∧ escaped = false then some ([], line)
    else (split (advance escaped c) line).map fun found => (c :: found.1, found.2)

/-- A character is escaped by an odd number of backslashes before it. -/
theorem advance_iff (before : List Char) :
    before.foldl advance false = true ↔
      (before.reverse.takeWhile (· = '\\')).length % 2 = 1 := by
  induction before using List.reverseRecOn with
  | nil => decide
  | append_singleton before c ih =>
    rw [List.foldl_append, List.reverse_append, List.reverse_singleton, List.singleton_append]
    by_cases hc : c = '\\'
    · rw [List.takeWhile_cons_of_pos (by simpa using hc), List.length_cons]
      cases hescaped : before.foldl advance false <;> simp [hescaped, advance, hc] at ih ⊢ <;> omega
    · rw [List.takeWhile_cons_of_neg (by simpa using hc)]
      simp [advance, hc]

/-- Text between quotes: all quotes in it are escaped, and what follows it is not. -/
structure Stays (body : List Char) : Prop where
  escaped : ∀ before after, body = before ++ '"' :: after → before.foldl advance false = true
  closed : body.foldl advance false = false

/-- Escaped quotes are passed over. -/
theorem split_append {escaped : Bool} {body : List Char}
    (h : ∀ before after, body = before ++ '"' :: after → before.foldl advance escaped = true)
    (line : List Char) :
    split escaped (body ++ line) =
      (split (body.foldl advance escaped) line).map fun found => (body ++ found.1, found.2) := by
  induction body generalizing escaped with
  | nil => simp
  | cons c body ih =>
    have hc : ¬ (c = '"' ∧ escaped = false) := by
      rintro ⟨rfl, rfl⟩
      cases h [] body rfl
    rw [List.cons_append, split, if_neg hc, ih fun before after heq => h (c :: before) after
      (by rw [heq, List.cons_append]), Option.map_map, List.foldl_cons]
    rfl

namespace Stays

variable {body body' : List Char}

theorem split_eq (h : Stays body) (rest : List Char) :
    split false (body ++ '"' :: rest) = some (body, rest) := by
  rw [split_append h.escaped, h.closed, split, if_pos ⟨rfl, rfl⟩]
  simp

theorem append (h : Stays body) (h' : Stays body') : Stays (body ++ body') := by
  refine ⟨fun before after heq => ?_, by rw [List.foldl_append, h.closed, h'.closed]⟩
  obtain ⟨between, hbefore, hbody'⟩ | ⟨between, hbody, hafter⟩ := List.append_eq_append_iff.mp heq
  · rw [hbefore, List.foldl_append, h.closed]
    exact h'.escaped between after hbody'
  · cases between with
    | nil =>
      rw [List.append_nil] at hbody
      rw [← hbody, h.closed]
      exact h'.escaped [] after hafter.symm
    | cons c between =>
      cases hafter
      exact h.escaped before between hbody

theorem of_not_mem (hquote : '"' ∉ body) (hslash : '\\' ∉ body) : Stays body := by
  refine ⟨fun before after heq => absurd (by simp [heq]) hquote, ?_⟩
  clear hquote
  induction body with
  | nil => rfl
  | cons c body ih =>
    rw [List.mem_cons, not_or] at hslash
    rw [List.foldl_cons, advance, decide_eq_false (Ne.symm hslash.1), Bool.and_false,
      ih hslash.2]

/-- A backslash takes one character with it. -/
theorem pair (c : Char) : Stays ['\\', c] := by
  refine ⟨fun before after heq => ?_, rfl⟩
  rcases before with _ | ⟨_, _ | ⟨_, before⟩⟩
  · cases heq
  · cases heq
    rfl
  · simp at heq

theorem codePoint (c : Char) : Stays (codePoint c) :=
  (pair 'u').append (of_not_mem (fun h => (Quoted.ne_of_mem_braces h).1 rfl)
    fun h => (Quoted.ne_of_mem_braces h).2 rfl)

theorem escape (c : Char) : Stays (escape c) := by
  unfold Quoted.escape
  split_ifs with h₁ h₂
  any_goals exact pair _
  · exact of_not_mem (by simpa using Ne.symm h₁) (by simpa using Ne.symm h₂)
  · exact codePoint c

theorem flatMap_escape (s : List Char) : Stays (s.flatMap Quoted.escape) := by
  induction s with
  | nil => exact of_not_mem (by simp) (by simp)
  | cons c s ih => exact (escape c).append ih

end Stays

/-! ## Whole literals -/

/-- The literal of a text has two quotes around it, stays on its line, has only escaped quotes
inside, and spells the text. So it ends at the same place whatever follows it on its line, and is
read back as the text. -/
theorem quote_denotes (s : String) :
    ∃ body, (quote s).toList = '"' :: (body ++ ['"']) ∧
      (∀ c ∈ body, c ≠ '\n' ∧ c ≠ '\r') ∧
      (∀ before after, body = before ++ '"' :: after →
        (before.reverse.takeWhile (· = '\\')).length % 2 = 1) ∧
      decode body = some s.toList ∧
      ∀ rest, (quote s).toList ++ rest = '"' :: (body ++ '"' :: rest) ∧
        split false (body ++ '"' :: rest) = some (body, rest) ∧
        Quoted.scan none (body ++ '"' :: rest) = some (s.toList, rest) := by
  have hquote : (quote s).toList = '"' :: (s.toList.flatMap escape ++ ['"']) :=
    String.toList_ofList
  have hstays : Stays (s.toList.flatMap escape) := .flatMap_escape s.toList
  refine ⟨s.toList.flatMap escape, hquote, fun c hc => ?_, fun before after heq => ?_,
    decode_flatMap_escape s.toList, fun rest => ⟨?_, hstays.split_eq rest,
      Quoted.scan_quoted s.toList rest⟩⟩
  · obtain ⟨d, -, hd⟩ := List.mem_flatMap.mp hc
    have hle := Quoted.le_of_mem_escape hd
    exact ⟨by rintro rfl; exact absurd hle (by decide), by rintro rfl; exact absurd hle (by decide)⟩
  · exact (advance_iff before).mp (hstays.escaped before after heq)
  · rw [hquote, List.cons_append, List.append_assoc, List.singleton_append]

/-- A quote and a backslash at the end of a text, with another literal behind it. -/
theorem quote_denotes_backslash :
    quote "\"\\" = "\"\\\"\\\\\"" ∧
      split false "\\\"\\\\\", \"b\"".toList =
        some ("\\\"\\\\".toList, ", \"b\"".toList) := by
  have hliteral : (quote "\"\\").toList = '"' :: ("\\\"\\\\".toList ++ ['"']) := by decide
  obtain ⟨body, hquote, -, -, -, hends⟩ := quote_denotes "\"\\"
  obtain rfl : "\\\"\\\\".toList = body :=
    List.append_cancel_right (List.cons.inj (hliteral.symm.trans hquote)).2
  exact ⟨String.toList_inj.mp hliteral, (hends ", \"b\"".toList).2.1⟩

end ApiClient.Text.Literal
