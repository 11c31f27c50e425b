import ApiClient.Code
import ApiClient.Proofs.Sink.Indented
import ApiClient.Proofs.Text.Pieces

/-!
# The lines of code

* `Code.lines`, `Code.linesOfAll`: the lines of code at a depth, one unit deeper in every block;
* `Code.nesting`: how many blocks stand inside each other;
* `performAll_steps`: writing code appends its lines;
* `toList_render`: the text of code are its lines, each with its end;
* `performAll_render`: writing code does not fail;
* `indented_eq`: the indentation of a line;
* `Code.gathered`: what a reader of lines makes of code;
* `Code.OneLined`, `split_render`: code without line ends of its own falls into these lines again.
-/

namespace ApiClient.Code

open Indented

/-- A text at the indentation of `depth` blocks. -/
def indented (depth : Nat) (text : List Char) : List Char :=
  Indented.indented indentation depth text

mutual

/-- The lines of a piece of code. -/
def lines (depth : Nat) : Code → List (List Char)
  | .line text => [indented depth text.toList]
  | .blank => [[]]
  | .block head body tail =>
    indented depth (head.toList ++ ['{']) ::
      (linesOfAll (depth + 1) body ++ [indented depth ('}' :: tail.toList)])

/-- The lines of pieces of code, one after the other. -/
def linesOfAll (depth : Nat) : List Code → List (List Char)
  | [] => []
  | c :: rest => lines depth c ++ linesOfAll depth rest

end

mutual

/-- How many blocks stand inside each other. -/
def nesting : Code → Nat
  | .line _ | .blank => 0
  | .block _ body _ => nestingOfAll body + 1

/-- The largest nesting among pieces of code. -/
def nestingOfAll : List Code → Nat
  | [] => 0
  | c :: rest => max (nesting c) (nestingOfAll rest)

end

theorem nestingOfAll_le_iff {code : List Code} {n : Nat} :
    nestingOfAll code ≤ n ↔ ∀ c ∈ code, c.nesting ≤ n := by
  induction code with
  | nil => simp [nestingOfAll]
  | cons c code ih => rw [nestingOfAll, Nat.max_le, ih, List.forall_mem_cons]

theorem nestingOfAll_append_le {first second : List Code} {n : Nat} :
    nestingOfAll (first ++ second) ≤ n ↔ nestingOfAll first ≤ n ∧ nestingOfAll second ≤ n := by
  simp only [nestingOfAll_le_iff, List.forall_mem_append]

/-- Lines with their ends. -/
def ended (lines : List (List Char)) : List Char := lines.flatMap (· ++ ['\n'])

theorem ended_append (first second : List (List Char)) :
    ended (first ++ second) = ended first ++ ended second := by
  simp [ended]

theorem linesOfAll_append (depth : Nat) (first second : List Code) :
    linesOfAll depth (first ++ second) = linesOfAll depth first ++ linesOfAll depth second := by
  induction first with
  | nil => rfl
  | cons c first ih => rw [List.cons_append, linesOfAll, linesOfAll, ih, List.append_assoc]

/-! ## Writing -/

theorem moved_in {depth : Nat} (h : depth < maxDepth) : moved depth 1 = depth + 1 := by
  rw [moved]
  omega

theorem moved_out {depth : Nat} (h : depth < maxDepth) : moved (depth + 1) (-1) = depth := by
  rw [moved]
  omega

variable {ε : Type}

/-- A line that is written at once. -/
theorem performAll_line (text : String) (depth : Nat) (before : List Char) :
    performAll (Buffer.sink ε) indentation [write text, newline] (into depth true before) =
      { state := into depth true (before ++ ended [indented depth text.toList]) } := by
  rw [performAll, write, into_write, Outcome.andThen_of_success, performAll, newline, into_newline,
    Outcome.andThen_of_success, performAll]
  simp [ended, indented]

theorem performAll_opening {depth : Nat} (h : depth < maxDepth) (head : String)
    (before : List Char) :
    performAll (Buffer.sink ε) indentation [write head, write "\x7b", .indent 1, newline]
        (into depth true before) =
      { state := into (depth + 1) true
          (before ++ ended [indented depth (head.toList ++ ['{'])]) } := by
  rw [performAll, write, into_write, Outcome.andThen_of_success, performAll, write,
    into_write_begun, Outcome.andThen_of_success, performAll, into_indent,
    Outcome.andThen_of_success, performAll, newline, into_newline, Outcome.andThen_of_success,
    performAll, moved_in h]
  simp [ended, indented, Indented.indented]

theorem performAll_closing {depth : Nat} (h : depth < maxDepth) (tail : String)
    (before : List Char) :
    performAll (Buffer.sink ε) indentation [.indent (-1), write "\x7d", write tail, newline]
        (into (depth + 1) true before) =
      { state := into depth true (before ++ ended [indented depth ('}' :: tail.toList)]) } := by
  rw [performAll, into_indent, Outcome.andThen_of_success, performAll, write, into_write,
    Outcome.andThen_of_success, performAll, write, into_write_begun, Outcome.andThen_of_success,
    performAll, newline, into_newline, Outcome.andThen_of_success, performAll, moved_out h]
  simp [ended, indented, Indented.indented]

mutual

/-- Writing code appends its lines and comes back to the depth where it began. -/
theorem performAll_steps : ∀ (c : Code) (depth : Nat) (before : List Char),
    depth + c.nesting ≤ maxDepth →
      performAll (Buffer.sink ε) indentation c.steps (into depth true before) =
        { state := into depth true (before ++ ended (c.lines depth)) }
  | .line text, depth, before, _ => by rw [steps, lines, performAll_line]
  | .blank, depth, before, _ => by
    rw [steps, lines, performAll, newline, into_newline]
    rfl
  | .block head body tail, depth, before, h => by
    rw [nesting] at h
    have hd : depth < maxDepth := by omega
    rw [steps, performAll_append, performAll_append, performAll_opening hd,
      Outcome.andThen_of_success, performAll_stepsOfAll body (depth + 1) _ (by omega),
      Outcome.andThen_of_success, performAll_closing hd, lines]
    simp [ended]

theorem performAll_stepsOfAll : ∀ (code : List Code) (depth : Nat) (before : List Char),
    depth + nestingOfAll code ≤ maxDepth →
      performAll (Buffer.sink ε) indentation (stepsOfAll code) (into depth true before) =
        { state := into depth true (before ++ ended (linesOfAll depth code)) }
  | [], depth, before, _ => by
    rw [stepsOfAll, linesOfAll, performAll]
    simp [ended]
  | c :: rest, depth, before, h => by
    rw [nestingOfAll] at h
    rw [stepsOfAll, performAll_append, performAll_steps c depth before (by omega),
      Outcome.andThen_of_success, performAll_stepsOfAll rest depth _ (by omega), linesOfAll,
      ended_append, List.append_assoc]

end

theorem toList_render {code : List Code} (h : nestingOfAll code ≤ maxDepth) :
    (render code).toList = ended (linesOfAll 0 code) := by
  have hrun := performAll_stepsOfAll (ε := Empty) code 0 [] (by omega)
  have hstart : into 0 true [] = ({ inner := {} } : Indented Buffer) := rfl
  rw [hstart] at hrun
  rw [render, hrun]
  simp [into]

/-- Writing code into memory does not fail. -/
theorem performAll_render {code : List Code} (h : nestingOfAll code ≤ maxDepth) :
    performAll (Buffer.sink ε) indentation (stepsOfAll code) { inner := {} } =
      { state := { inner := { text := render code } } } := by
  have hrun := performAll_stepsOfAll (ε := ε) code 0 [] (by omega)
  have hstart : into 0 true [] = ({ inner := {} } : Indented Buffer) := rfl
  rw [hstart] at hrun
  rw [hrun, List.nil_append, ← toList_render h, into, String.ofList_toList]

/-! ## Reading lines -/

/-- Four spaces for every block. -/
theorem indented_eq (depth : Nat) (text : List Char) :
    indented depth text = List.replicate (4 * depth) ' ' ++ text := by
  have hunits : (List.replicate depth indentation.toList).flatten =
      List.replicate (4 * depth) ' ' := by
    induction depth with
    | zero => rfl
    | succ depth ih =>
      have hunit : indentation.toList = List.replicate 4 ' ' := rfl
      rw [List.replicate_succ, List.flatten_cons, ih, hunit, List.replicate_append_replicate,
        Nat.mul_succ, Nat.add_comm]
  rw [indented, Indented.indented, hunits]

theorem dropWhile_indented (depth : Nat) (text : List Char) :
    (indented depth text).dropWhile (· == ' ') = text.dropWhile (· == ' ') := by
  rw [indented_eq, List.dropWhile_append_of_pos]
  intro c hc
  simp [List.eq_of_mem_replicate hc]

section Gathered

variable {α : Type} {read : List Char → Option α} {depth : Nat} {code : List Code}

/-- What `read` makes of the lines of code. -/
def gathered (read : List Char → Option α) (depth : Nat) (code : List Code) : List α :=
  (linesOfAll depth code).filterMap read

theorem gathered_append (first second : List Code) :
    gathered read depth (first ++ second) =
      gathered read depth first ++ gathered read depth second := by
  rw [gathered, linesOfAll_append, List.filterMap_append, ← gathered, ← gathered]

theorem gathered_cons (c : Code) :
    gathered read depth (c :: code) = gathered read depth [c] ++ gathered read depth code :=
  gathered_append [c] code

theorem gathered_blank (hblank : read [] = none) :
    gathered read depth (.blank :: code) = gathered read depth code := by
  rw [gathered, linesOfAll, lines, List.singleton_append, List.filterMap_cons_none hblank,
    ← gathered]

theorem gathered_spaced (hblank : read [] = none) (code : List Code) :
    gathered read depth (spaced code) = gathered read depth code := by
  induction code with
  | nil => rfl
  | cons c code ih =>
    rw [spaced, List.flatMap_cons, List.cons_append, List.singleton_append, gathered_blank hblank,
      gathered_cons, ← spaced, ih, ← gathered_cons]

variable (hindented : ∀ depth text, read (indented depth text) = read text)
include hindented

theorem gathered_line (text : String) :
    gathered read depth (.line text :: code) =
      (read text.toList).toList ++ gathered read depth code := by
  rw [gathered, linesOfAll, lines, List.singleton_append, List.filterMap_cons, hindented]
  cases read text.toList <;> rfl

theorem gathered_block (hclosing : ∀ s, read ('}' :: s) = none) (head tail : String)
    (body : List Code) :
    gathered read depth (.block head body tail :: code) =
      (read (head.toList ++ ['{'])).toList ++ gathered read (depth + 1) body ++
        gathered read depth code := by
  rw [gathered, linesOfAll, lines, List.filterMap_append, List.filterMap_cons,
    List.filterMap_append, hindented, List.filterMap_cons_none]
  · cases read (head.toList ++ ['{']) <;> simp [gathered]
  · rw [hindented, hclosing]

end Gathered

/-! ## Falling into lines -/

mutual

/-- Code without line ends in its texts. -/
def OneLined : Code → Prop
  | .line text => '\n' ∉ text.toList
  | .blank => True
  | .block head body tail => '\n' ∉ head.toList ∧ OneLinedAll body ∧ '\n' ∉ tail.toList

/-- Pieces of code without line ends in their texts. -/
def OneLinedAll : List Code → Prop
  | [] => True
  | c :: rest => OneLined c ∧ OneLinedAll rest

end

theorem oneLined_line {text : String} {l : List Char} (ht : text = String.ofList l)
    (hl : '\n' ∉ l) : (line text).OneLined := by
  rw [OneLined, ht, String.toList_ofList]
  exact hl

theorem oneLined_block {head tail : String} {l m : List Char} {body : List Code}
    (hh : head = String.ofList l) (ht : tail = String.ofList m) (hlm : '\n' ∉ l ++ m)
    (hbody : OneLinedAll body) : (block head body tail).OneLined := by
  rw [List.mem_append, not_or] at hlm
  rw [OneLined, hh, ht, String.toList_ofList, String.toList_ofList]
  exact ⟨hlm.1, hbody, hlm.2⟩

theorem oneLinedAll_iff {code : List Code} : OneLinedAll code ↔ ∀ c ∈ code, c.OneLined := by
  induction code with
  | nil => simp [OneLinedAll]
  | cons c code ih => rw [OneLinedAll, ih, List.forall_mem_cons]

theorem oneLinedAll_append {first second : List Code} :
    OneLinedAll (first ++ second) ↔ OneLinedAll first ∧ OneLinedAll second := by
  simp only [oneLinedAll_iff, List.forall_mem_append]

theorem not_mem_indented {text : List Char} (h : '\n' ∉ text) (depth : Nat) :
    '\n' ∉ indented depth text := by
  rw [indented_eq, List.mem_append, not_or]
  exact ⟨fun hmem => absurd (List.eq_of_mem_replicate hmem) (by decide), h⟩

mutual

theorem OneLined.not_mem_lines : ∀ (c : Code) (depth : Nat), c.OneLined →
    ∀ l ∈ c.lines depth, '\n' ∉ l
  | .line text, depth, h, l, hl => by
    rw [lines, List.mem_singleton] at hl
    exact hl ▸ not_mem_indented h depth
  | .blank, depth, h, l, hl => by
    rw [lines, List.mem_singleton] at hl
    simp [hl]
  | .block head body tail, depth, h, l, hl => by
    obtain ⟨hhead, hbody, htail⟩ := h
    rw [lines, List.mem_cons, List.mem_append, List.mem_singleton] at hl
    rcases hl with rfl | hl | rfl
    · exact not_mem_indented (by simp [hhead]) depth
    · exact OneLinedAll.not_mem_lines body (depth + 1) hbody l hl
    · exact not_mem_indented (by simp [htail]) depth

theorem OneLinedAll.not_mem_lines : ∀ (code : List Code) (depth : Nat), OneLinedAll code →
    ∀ l ∈ linesOfAll depth code, '\n' ∉ l
  | [], _, _, _, hl => by cases hl
  | c :: rest, depth, h, l, hl => by
    obtain ⟨hc, hrest⟩ := h
    rw [linesOfAll, List.mem_append] at hl
    rcases hl with hl | hl
    · exact OneLined.not_mem_lines c depth hc l hl
    · exact OneLinedAll.not_mem_lines rest depth hrest l hl

end

theorem split_ended {lines : List (List Char)} (h : ∀ l ∈ lines, '\n' ∉ l) :
    Text.split '\n' (ended lines) = lines ++ [[]] := by
  induction lines with
  | nil => rfl
  | cons line lines ih =>
    have ih := ih fun l hl => h l (List.mem_cons_of_mem line hl)
    rw [ended, List.flatMap_cons, List.append_assoc, List.singleton_append,
      Text.split_append (h line List.mem_cons_self), ← ended, ih, List.cons_append]

theorem split_render {code : List Code} (hn : nestingOfAll code ≤ maxDepth)
    (h : OneLinedAll code) :
    Text.split '\n' (render code).toList = linesOfAll 0 code ++ [[]] := by
  rw [toList_render hn, split_ended (OneLinedAll.not_mem_lines code 0 h)]

end ApiClient.Code
