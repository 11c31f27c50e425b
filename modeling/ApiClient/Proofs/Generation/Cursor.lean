import ApiClient.Generation.Cursor
import ApiClient.Proofs.Generation.Emission
import ApiClient.Proofs.Generation.ParserCall

/-!
# The index of the next file

* `Generation.after`, `next?_after`, `remaining_after`: a list of parts that gets shorter;
* `Cursor.left`: the list of parts that an index stands for;
* `part?_eq`, `emit_eq`: a part is looked up by the index, and its file is written;
* `next_eq`, `left_next`, `inBounds_next`: one step of the index is one step of the list;
* `Cursor.after`, `left_after`, `inBounds_after`: any number of steps;
* `next_after`, `remaining?_after`: what the index gives and counts.
-/

namespace ApiClient

/-! ## A list of parts -/

namespace Generation

/-- What is left to generate after so many calls for the next file. A call behind the last file
changes nothing. -/
def after : Nat → Generation → Generation
  | 0, g => g
  | k + 1, g =>
    match g.next? with
    | none => after k g
    | some (_, g) => after k g

theorem after_eq (k : Nat) (g : Generation) : after k g = { g with parts := g.parts.drop k } := by
  induction k generalizing g with
  | zero => rfl
  | succ k ih =>
    rw [after, next?]
    cases hparts : g.parts with
    | nil => simp [ih, hparts]
    | cons part parts => simp [ih]

theorem next?_after (k : Nat) (g : Generation) :
    (after k g).next?.map Prod.fst = g.files[k]? := by
  rw [after_eq, files, List.getElem?_map, ← List.head?_drop, next?]
  dsimp only
  cases g.parts.drop k with
  | nil => rfl
  | cons part parts => rfl

theorem remaining_after (k : Nat) (g : Generation) :
    (after k g).remaining = g.remaining - k := by
  rw [after_eq, remaining, remaining, List.length_drop]

theorem after_succ (k : Nat) (g : Generation) : after (k + 1) g = after k (after 1 g) := by
  rw [after_eq, after_eq, after_eq, List.drop_drop, Nat.add_comm]

end Generation

/-- Steps that write the contents of a file give that file. -/
theorem SourceFile.emit_eq {ε : Type} {config : Config} {code : List Code}
    {steps : List Indented.Step} (h : Emission.Emits steps (wrap config code))
    (hnesting : Code.nestingOfAll (wrap config code) ≤ Indented.maxDepth) (name : String) :
    emit ε name steps = .ok (ofCode config name code) := by
  rw [emit, h.performAll_eq hnesting, Code.performAll_render hnesting]
  rfl

/-! ## An index -/

namespace Cursor

variable {ε : Type} {c : Cursor}

/-- What is left to generate: the parts from the index on. -/
def left (c : Cursor) : Generation where
  config := c.config
  endpoints := c.endpoints
  parts := (Generation.partsOf c.config).drop c.index

/-- Not more files have been asked for than there are. -/
def InBounds (c : Cursor) : Prop := c.index ≤ c.count

theorem length_partsOf (c : Cursor) : (Generation.partsOf c.config).length = c.count := by
  rw [Generation.partsOf, List.length_cons, List.length_map, count, Nat.add_comm]

/-- The format behind an index is the part at that index. -/
theorem part?_eq (c : Cursor) (index : Nat) :
    c.part? index = (Generation.partsOf c.config)[index]? := by
  rw [part?, Generation.partsOf]
  cases index with
  | zero => rfl
  | succ index =>
    rw [if_neg (Nat.succ_ne_zero index), Nat.add_sub_cancel, List.getElem?_cons_succ,
      List.getElem?_map]

/-- Writing a file does not fail. -/
theorem emit_eq (c : Cursor) (part : Part) : c.emit ε part = .ok (c.left.file part) := by
  cases part with
  | client =>
    exact SourceFile.emit_eq (Emission.emits_client c.config c.endpoints)
      (Client.nesting_wrap c.config c.endpoints) _
  | parser format =>
    exact SourceFile.emit_eq (Emission.emits_parserModule c.config format)
      (ParserModule.nesting_wrap c.config format) _

/-- One call for a file, by the list of parts. -/
theorem next_eq (c : Cursor) :
    c.next ε =
      match c.left.next? with
      | none => (.ended, c)
      | some (file, _) => (.emitted (.ok file), { c with index := c.index + 1 }) := by
  have hparts : c.left.parts = (Generation.partsOf c.config).drop c.index := rfl
  rw [next, Generation.next?, hparts]
  by_cases h : c.count ≤ c.index
  · rw [if_pos h, List.drop_eq_nil_of_le (by rwa [length_partsOf])]
  · have hlt : c.index < (Generation.partsOf c.config).length := by
      rw [length_partsOf]
      omega
    rw [if_neg h, part?_eq, List.getElem?_eq_getElem hlt, List.drop_eq_getElem_cons hlt]
    dsimp only
    rw [emit_eq]

/-- The index moves on as long as there are files, whatever is found at it. -/
theorem state_next (c : Cursor) :
    (c.next ε).2 = if c.count ≤ c.index then c else { c with index := c.index + 1 } := by
  rw [next]
  split
  · rfl
  · cases c.part? c.index <;> rfl

/-- The list of parts loses its first entry, if it has one. -/
theorem left_next (c : Cursor) : (c.next ε).2.left = Generation.after 1 c.left := by
  rw [state_next, Generation.after_eq, left, left]
  dsimp only
  rw [List.drop_drop]
  split_ifs with h
  · rw [List.drop_eq_nil_of_le (by rwa [length_partsOf]), List.drop_eq_nil_of_le (by
      rw [length_partsOf]
      omega)]
  · rfl

theorem inBounds_next (h : c.InBounds) : (c.next ε).2.InBounds := by
  rw [state_next]
  split_ifs with hend
  · exact h
  · exact Nat.lt_of_not_le hend

theorem remaining?_eq (h : c.InBounds) : c.remaining? = some c.left.remaining := by
  have hle : c.index ≤ c.count := h
  rw [remaining?, if_pos hle, Generation.remaining, left, List.length_drop, length_partsOf]

/-! ## Any number of calls -/

/-- The cursor behind so many calls for the next file. -/
def after (ε : Type) : Nat → Cursor → Cursor
  | 0, c => c
  | k + 1, c => after ε k (c.next ε).2

theorem left_after (k : Nat) (c : Cursor) : (after ε k c).left = Generation.after k c.left := by
  induction k generalizing c with
  | zero => rfl
  | succ k ih => rw [after, ih, left_next, ← Generation.after_succ]

theorem inBounds_after (k : Nat) (h : c.InBounds) : (after ε k c).InBounds := by
  induction k generalizing c with
  | zero => exact h
  | succ k ih => exact ih (inBounds_next h)

/-- The call behind `k` others gives the `k`-th file that was left, and ends if there is none. -/
theorem next_after (k : Nat) (c : Cursor) :
    (∀ file, c.left.files[k]? = some file →
      ((after ε k c).next ε).1 = .emitted (.ok file)) ∧
    (c.left.files[k]? = none → (after ε k c).next ε = (.ended, after ε k c)) := by
  rw [next_eq, left_after, ← Generation.next?_after]
  cases (Generation.after k c.left).next? with
  | none => exact ⟨fun _ h => absurd h (Option.some_ne_none _).symm, fun _ => rfl⟩
  | some next =>
    obtain ⟨file, rest⟩ := next
    refine ⟨fun _ h => ?_, fun h => absurd h (Option.some_ne_none _)⟩
    obtain rfl := Option.some.inj h
    rfl

/-- The number of files that are left is never below zero. -/
theorem remaining?_after (k : Nat) (h : c.InBounds) :
    (after ε k c).remaining? = some (c.left.remaining - k) := by
  rw [remaining?_eq (inBounds_after k h), left_after, Generation.remaining_after]

end Cursor

end ApiClient
