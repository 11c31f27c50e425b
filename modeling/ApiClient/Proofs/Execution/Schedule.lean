import Mathlib.Data.List.Sort
import ApiClient.Execution

/-!
# The schedule of an execution

What is asked of the sinks, file after file, with the positions of the sinks in their list.

* `Call`, `schedule`: an operation of the sink at a position, and all of them in order;
* `given`, `completed`: what one position is asked for, and how many files it has taken;
* `given_schedule`: every position is asked for the same;
* `schedule_eq_append_cons`: where a call stands in the schedule;
* `completed_of_schedule`: what the positions have taken up to a call.
-/

namespace ApiClient.Execution

/-- An operation of the sink at a position. -/
structure Call (ι : Type) where
  position : ι
  step : Sink.Step
  deriving DecidableEq, Repr

/-- What a sink is asked for to take a file. -/
def stepsOf (file : SourceFile) : List Sink.Step := [.beginFile file.name, .write file.contents]

variable {ι : Type}

/-- The calls by which the sink at a position takes a file. -/
def callsTo (file : SourceFile) (position : ι) : List (Call ι) := (stepsOf file).map (.mk position)

/-- Every file goes to all positions before the next file does. -/
def schedule (positions : List ι) (files : List SourceFile) : List (Call ι) :=
  files.flatMap fun file => positions.flatMap (callsTo file)

theorem step_of_mem_schedule {positions : List ι} {files : List SourceFile} {call : Call ι}
    (h : call ∈ schedule positions files) : ∀ c, call.step ≠ .writeChar c := by
  obtain ⟨file, -, h⟩ := List.mem_flatMap.mp h
  obtain ⟨i, -, h⟩ := List.mem_flatMap.mp h
  obtain ⟨step, hstep, rfl⟩ := List.mem_map.mp h
  rintro c rfl
  exact absurd hstep (by simp [stepsOf])

/-! ## What one position is asked for -/

section Given

variable [DecidableEq ι]

/-- What the sink at a position is asked for. -/
def given (i : ι) (calls : List (Call ι)) : List Sink.Step :=
  (calls.filter (·.position = i)).map Call.step

/-- Whether an operation writes a text. -/
def isWrite : Sink.Step → Bool
  | .write _ => true
  | _ => false

/-- The number of files that the sink at a position has taken after calls that succeed. The text is
the last thing that is written of a file. -/
def completed (i : ι) (calls : List (Call ι)) : Nat := (given i calls).countP isWrite

theorem given_append (i : ι) (calls calls' : List (Call ι)) :
    given i (calls ++ calls') = given i calls ++ given i calls' := by
  rw [given, List.filter_append, List.map_append]
  rfl

theorem completed_append (i : ι) (calls calls' : List (Call ι)) :
    completed i (calls ++ calls') = completed i calls + completed i calls' := by
  rw [completed, given_append, List.countP_append]
  rfl

theorem given_of_prefix {calls calls' : List (Call ι)} (h : calls <+: calls') (i : ι) :
    given i calls <+: given i calls' := by
  obtain ⟨rest, rfl⟩ := h
  exact ⟨given i rest, (given_append i calls rest).symm⟩

theorem given_map_self (i : ι) (steps : List Sink.Step) : given i (steps.map (.mk i)) = steps := by
  rw [given, List.filter_eq_self.mpr, List.map_map]
  · exact List.map_id steps
  · simp

theorem given_map_of_ne {i j : ι} (h : j ≠ i) (steps : List Sink.Step) :
    given i (steps.map (.mk j)) = [] := by
  rw [given, List.map_eq_nil_iff, List.filter_eq_nil_iff]
  simp [h]

theorem given_callsTo_positions (file : SourceFile) {positions : List ι} (h : positions.Nodup)
    (i : ι) :
    given i (positions.flatMap (callsTo file)) = if i ∈ positions then stepsOf file else [] := by
  induction positions with
  | nil => rfl
  | cons j positions ih =>
    obtain ⟨hj, hpositions⟩ := List.nodup_cons.mp h
    rw [List.flatMap_cons, given_append, ih hpositions, callsTo]
    by_cases hi : j = i
    · subst hi
      rw [given_map_self, if_neg hj, List.append_nil, if_pos List.mem_cons_self]
    · rw [given_map_of_ne hi, List.nil_append]
      simp only [List.mem_cons, Ne.symm hi, false_or]

/-- Every position is asked for all files in order. -/
theorem given_schedule {positions : List ι} (h : positions.Nodup) {i : ι} (hi : i ∈ positions)
    (files : List SourceFile) : given i (schedule positions files) = files.flatMap stepsOf := by
  induction files with
  | nil => rfl
  | cons file files ih =>
    rw [schedule, List.flatMap_cons, given_append, ← schedule, ih,
      given_callsTo_positions file h, if_pos hi, List.flatMap_cons]

theorem completed_callsTo_positions (file : SourceFile) {positions : List ι} (h : positions.Nodup)
    (i : ι) : completed i (positions.flatMap (callsTo file)) = if i ∈ positions then 1 else 0 := by
  rw [completed, given_callsTo_positions file h]
  split <;> rfl

theorem completed_schedule {positions : List ι} (h : positions.Nodup) {i : ι} (hi : i ∈ positions)
    (files : List SourceFile) : completed i (schedule positions files) = files.length := by
  rw [completed, given_schedule h hi]
  induction files with
  | nil => rfl
  | cons file files ih =>
    rw [List.flatMap_cons, List.countP_append, ih, List.length_cons, Nat.add_comm]
    rfl

end Given

/-! ## Where a call stands -/

theorem exists_of_flatMap_eq {α β : Type} {f : α → List β} {l : List α} {before after : List β}
    {x : β} (h : l.flatMap f = before ++ x :: after) :
    ∃ left a right begun, l = left ++ a :: right ∧ before = left.flatMap f ++ begun ∧
      begun ++ [x] <+: f a := by
  induction l generalizing before with
  | nil => exact absurd h (by simp)
  | cons a l ih =>
    rw [List.flatMap_cons, List.append_eq_append_iff] at h
    rcases h with ⟨more, rfl, h⟩ | ⟨rest, ha, h⟩
    · obtain ⟨left, b, right, begun, rfl, rfl, hb⟩ := ih h
      exact ⟨a :: left, b, right, begun, rfl, by simp, hb⟩
    · cases rest with
      | nil =>
        have hnil : l.flatMap f = [] ++ x :: after := h.symm
        obtain ⟨left, b, right, begun, rfl, hbefore, hb⟩ := ih hnil
        exact ⟨a :: left, b, right, begun, rfl, by simp [ha, hbefore], hb⟩
      | cons y rest =>
        obtain ⟨rfl, -⟩ := List.cons_eq_cons.mp h
        exact ⟨[], a, l, before, rfl, by simp, rest, by simp [ha]⟩

/-- Before a call to a position for a file, all files before that one have gone to all positions,
the file has gone to the positions before, and nothing of it was written to the position itself. -/
theorem schedule_eq_append_cons {positions : List ι} {files : List SourceFile}
    {before after : List (Call ι)} {call : Call ι}
    (h : schedule positions files = before ++ call :: after) :
    ∃ complete file more left right begun, files = complete ++ file :: more ∧
      positions = left ++ call.position :: right ∧
      before = schedule positions complete ++ (left.flatMap (callsTo file) ++
        begun.map (.mk call.position)) ∧
      begun ++ [call.step] <+: stepsOf file := by
  obtain ⟨complete, file, more, rest, hfiles, rfl, after', h⟩ := exists_of_flatMap_eq h
  rw [List.append_assoc, List.singleton_append] at h
  obtain ⟨left, j, right, begun, hpositions, rfl, hj⟩ := exists_of_flatMap_eq h.symm
  obtain ⟨steps, hsteps, hmap⟩ := List.prefix_map_iff.mp hj
  obtain ⟨begun, last, rfl, rfl, hlast⟩ := List.map_eq_append_iff.mp hmap.symm
  obtain ⟨step, rfl, rfl⟩ := List.map_eq_singleton_iff.mp hlast
  exact ⟨complete, file, more, left, right, begun, hfiles, hpositions, rfl, hsteps⟩

/-! ## What has been taken up to a call -/

theorem countP_of_append_singleton_prefix {file : SourceFile} {begun : List Sink.Step}
    {step : Sink.Step} (h : begun ++ [step] <+: stepsOf file) : begun.countP isWrite = 0 := by
  obtain ⟨rest, h⟩ := h
  match begun with
  | [] => rfl
  | [first] =>
    obtain ⟨rfl, -⟩ := List.cons_eq_cons.mp h
    rfl
  | first :: second :: more => exact absurd (congrArg List.length h) (by simp [stepsOf])

theorem mem_left_iff_lt {count : Nat} {left right : List (Fin count)} {j : Fin count}
    (h : List.finRange count = left ++ j :: right) (i : Fin count) : i ∈ left ↔ i < j := by
  have hsorted := (List.sortedLT_finRange count).pairwise
  rw [h, List.pairwise_append, List.pairwise_cons] at hsorted
  obtain ⟨-, ⟨hright, -⟩, hleft⟩ := hsorted
  constructor
  · exact fun hi => hleft i hi j List.mem_cons_self
  · intro hlt
    have hi := List.mem_finRange i
    rw [h, List.mem_append, List.mem_cons] at hi
    rcases hi with hi | rfl | hi
    · exact hi
    · exact absurd hlt (lt_irrefl i)
    · exact absurd hlt (lt_asymm (hright i hi))

/-- Up to a call, the positions before that of the call have taken one file more than the others. -/
theorem completed_of_schedule {count : Nat} {files : List SourceFile}
    {before after : List (Call (Fin count))} {call : Call (Fin count)}
    (h : schedule (List.finRange count) files = before ++ call :: after) :
    ∃ n < files.length, ∀ i,
      completed i before = if i < call.position then n + 1 else n := by
  obtain ⟨complete, file, more, left, right, begun, rfl, hpositions, rfl, hbegun⟩ :=
    schedule_eq_append_cons h
  have hnodup := List.nodup_finRange count
  have hleft : left.Nodup := by
    rw [hpositions] at hnodup
    exact hnodup.of_append_left
  refine ⟨complete.length, by simp, fun i => ?_⟩
  -- what was begun at the position of the call is not complete anywhere
  have hrest : completed i (begun.map (.mk call.position)) = 0 := by
    rw [completed]
    by_cases hi : call.position = i
    · rw [hi, given_map_self, countP_of_append_singleton_prefix hbegun]
    · rw [given_map_of_ne hi, List.countP_nil]
  rw [completed_append, completed_append, completed_schedule hnodup (List.mem_finRange i), hrest,
    completed_callsTo_positions file hleft]
  simp only [mem_left_iff_lt hpositions i]
  split <;> rfl

end ApiClient.Execution
