import ApiClient.Proofs.Lists
import ApiClient.Sink.Buffer

/-!
# Files and the steps that have written them

Steps are taken one after the other, and one that fails does not keep the next from being taken.

* `Step.begun?`, `Step.written`: the file that a step begins, and the text that it writes;
* `Sink.behind`: the state behind steps;
* `Sink.Succeeds`, `Sink.Begun`: a step that succeeds behind others, and a file that has been begun
  with success;
* `Sink.Span`: the steps from the beginning of a file up to that of the next one;
* `names_behind`: the files stand in the order in which their names come first;
* `succeeds_beginFile_iff`, `succeeds_write_iff`: what makes a step succeed;
* `state_of_failure`: a step that fails leaves the state as it was;
* `text?_eq_some_iff`: the text of a file is what the steps of its span write.
-/

namespace ApiClient

namespace Sink

/-! ## Steps -/

namespace Step

/-- The file that a step begins. -/
def begun? : Step → Option String
  | .beginFile name => some name
  | _ => none

/-- The text that a step writes. -/
def written : Step → String
  | .beginFile _ => ""
  | .write data => data
  | .writeChar c => String.singleton c
  | .newline => "\n"

theorem begun?_eq_some_iff {step : Step} {name : String} :
    step.begun? = some name ↔ step = .beginFile name := by
  cases step <;> simp [begun?]

theorem mem_filterMap_begun?_iff {steps : List Step} {name : String} :
    name ∈ steps.filterMap begun? ↔ .beginFile name ∈ steps := by
  simp [begun?_eq_some_iff]

end Step

/-- The text that steps write. -/
def written (steps : List Step) : String := String.join (steps.map Step.written)

theorem written_concat (steps : List Step) (step : Step) :
    written (steps ++ [step]) = written steps ++ step.written := by
  simp [written]

/-! ## Steps one after the other -/

section Behind

variable {ε σ : Type} (sink : Sink ε σ) (start : σ)

/-- The state behind steps, whether they succeed or not. -/
def behind (steps : List Step) (s : σ) : σ :=
  steps.foldl (fun s step => (sink.perform step s).state) s

theorem behind_append (first second : List Step) (s : σ) :
    sink.behind (first ++ second) s = sink.behind second (sink.behind first s) :=
  List.foldl_append

theorem behind_concat (steps : List Step) (step : Step) (s : σ) :
    sink.behind (steps ++ [step]) s = (sink.perform step (sink.behind steps s)).state :=
  sink.behind_append steps [step] s

/-- Whether a step succeeds behind others. -/
def Succeeds (steps : List Step) (step : Step) : Prop :=
  (sink.perform step (sink.behind steps start)).failure? = none

instance [DecidableEq ε] (steps : List Step) (step : Step) :
    Decidable (sink.Succeeds start steps step) :=
  inferInstanceAs (Decidable (_ = none))

/-- Whether one of several steps has begun a file with success. -/
def Begun (steps : List Step) (name : String) : Prop :=
  ∃ before after, steps = before ++ .beginFile name :: after ∧
    sink.Succeeds start before (.beginFile name)

/-- No file is begun with success by any of the steps `during`, taken behind others. -/
def Idle (before during : List Step) : Prop :=
  ∀ first name last, during = first ++ .beginFile name :: last →
    ¬ sink.Succeeds start (before ++ first) (.beginFile name)

/-- The steps `during` lead from the successful beginning of a file up to that of the next one, or
to the end. -/
def Span (steps : List Step) (name : String) (during : List Step) : Prop :=
  ∃ before after, steps = before ++ .beginFile name :: (during ++ after) ∧
    sink.Succeeds start before (.beginFile name) ∧
    sink.Idle start (before ++ [.beginFile name]) during ∧
    (after = [] ∨ ∃ next rest, after = .beginFile next :: rest ∧
      sink.Succeeds start (before ++ .beginFile name :: during) (.beginFile next))

end Behind

end Sink

namespace FileBuffer

open Sink

variable {b : FileBuffer} {step : Step} {steps : List Step} {name text : String}

/-! ## One step -/

theorem perform_beginFile_of_mem (h : name ∈ b.names) :
    sink.perform (.beginFile name) b = { state := b, failure? := some (.repeated name) } :=
  if_pos (by simpa using h)

theorem perform_beginFile_of_not_mem (h : name ∉ b.names) :
    sink.perform (.beginFile name) b =
      { state := { complete := b.files, current? := some (name, "") } } :=
  if_neg (by simpa using h)

theorem perform_of_begun?_eq_none (h : step.begun? = none) :
    sink.perform step b = write step.written b := by
  cases step with
  | beginFile name => cases h
  | _ => rfl

theorem write_of_current {data : String} (h : b.current? = some (name, text)) :
    write data b = { state := { b with current? := some (name, text ++ data) } } := by
  rw [write, h]

theorem write_of_none {data : String} (h : b.current? = none) :
    write data b = { state := b, failure? := some .noFile } := by
  rw [write, h]

/-- A step that fails leaves everything as it was. -/
theorem state_of_failure (h : (sink.perform step b).failure? ≠ none) :
    (sink.perform step b).state = b := by
  cases hbegun : step.begun? with
  | some name =>
    obtain rfl := Step.begun?_eq_some_iff.mp hbegun
    by_cases hname : name ∈ b.names
    · rw [perform_beginFile_of_mem hname]
    · rw [perform_beginFile_of_not_mem hname] at h
      exact absurd rfl h
  | none =>
    rw [perform_of_begun?_eq_none hbegun] at h ⊢
    cases hcurrent : b.current? with
    | none => rw [write_of_none hcurrent]
    | some current =>
      rw [write_of_current hcurrent] at h
      exact absurd rfl h

theorem names_write (data : String) (b : FileBuffer) : (write data b).state.names = b.names := by
  cases hcurrent : b.current? with
  | none => rw [write_of_none hcurrent]
  | some current =>
    rw [write_of_current hcurrent, names, names, files, files, hcurrent]
    simp

theorem names_beginFile (name : String) (b : FileBuffer) :
    (sink.perform (.beginFile name) b).state.names =
      if name ∈ b.names then b.names else b.names ++ [name] := by
  split_ifs with hname
  · rw [perform_beginFile_of_mem hname]
  · rw [perform_beginFile_of_not_mem hname]
    simp [names, files]

theorem text?_eq_none_iff : b.text? name = none ↔ name ∉ b.names := lookup_eq_none_iff

theorem text?_beginFile (h : name ∉ b.names) (other : String) :
    (sink.perform (.beginFile name) b).state.text? other =
      if other = name then some "" else b.text? other := by
  rw [perform_beginFile_of_not_mem h, text?, files, List.lookup_append]
  split_ifs with hother
  · rw [hother, ← text?, text?_eq_none_iff.mpr h]
    simp
  · simp [text?, hother]

theorem text?_write (hcurrent : b.current? = some (name, text)) (hnodup : b.names.Nodup)
    (data other : String) : (write data b).state.text? other =
      if other = name then some (text ++ data) else b.text? other := by
  have hnew : b.complete.lookup name = none := by
    rw [names, files, hcurrent, List.map_append, List.nodup_append] at hnodup
    exact lookup_eq_none_iff.mpr fun hmem => hnodup.2.2 name hmem name (by simp) rfl
  rw [write_of_current hcurrent, text?, text?, files, files, List.lookup_append,
    List.lookup_append, hcurrent]
  split_ifs with hother
  · simp [hother, hnew]
  · simp [hother]

/-! ## Steps one after the other -/

/-- The files stand in the order in which their names come first. -/
theorem names_behind (steps : List Step) :
    (sink.behind steps {}).names = (steps.filterMap Step.begun?).eraseDups := by
  induction steps using List.reverseRecOn with
  | nil => rfl
  | append_singleton steps step ih =>
    rw [behind_concat, List.filterMap_append]
    cases hbegun : step.begun? with
    | none =>
      rw [perform_of_begun?_eq_none hbegun, names_write, ih]
      simp [hbegun]
    | some name =>
      obtain rfl := Step.begun?_eq_some_iff.mp hbegun
      rw [List.filterMap_cons_some hbegun, List.filterMap_nil, names_beginFile, ih,
        eraseDups_concat]
      simp only [List.mem_eraseDups]

theorem mem_names_behind_iff :
    name ∈ (sink.behind steps {}).names ↔ .beginFile name ∈ steps := by
  rw [names_behind, List.mem_eraseDups, Step.mem_filterMap_begun?_iff]

/-- A file can be begun once. -/
theorem succeeds_beginFile_iff :
    sink.Succeeds {} steps (.beginFile name) ↔ .beginFile name ∉ steps := by
  rw [← mem_names_behind_iff, Succeeds]
  by_cases hname : name ∈ (sink.behind steps {}).names
  · simp [perform_beginFile_of_mem hname, hname]
  · simp [perform_beginFile_of_not_mem hname, hname]

theorem begun_iff : sink.Begun {} steps name ↔ .beginFile name ∈ steps := by
  constructor
  · rintro ⟨before, after, rfl, -⟩
    exact List.mem_append_right _ List.mem_cons_self
  · intro h
    obtain ⟨before, after, hsteps, hnew⟩ := List.eq_append_cons_of_mem h
    exact ⟨before, after, hsteps, succeeds_beginFile_iff.mpr hnew⟩

theorem current?_behind_eq_none_iff :
    (sink.behind steps {}).current? = none ↔ ∀ name, ¬ sink.Begun {} steps name := by
  induction steps using List.reverseRecOn with
  | nil => simp [Sink.behind, begun_iff]
  | append_singleton steps step ih =>
    simp only [begun_iff, List.mem_append, List.mem_singleton] at ih ⊢
    rw [behind_concat]
    cases hbegun : step.begun? with
    | none =>
      have hne : ∀ name, .beginFile name ≠ step := by
        rintro name rfl
        cases hbegun
      rw [perform_of_begun?_eq_none hbegun]
      simp only [hne, or_false]
      rw [← ih]
      cases hcurrent : (sink.behind steps {}).current? with
      | none => rw [write_of_none hcurrent, hcurrent]
      | some current => simp [write_of_current hcurrent]
    | some name =>
      obtain rfl := Step.begun?_eq_some_iff.mp hbegun
      refine iff_of_false (fun hnone => ?_) fun hnot => hnot name (.inr rfl)
      by_cases hname : name ∈ (sink.behind steps {}).names
      · rw [perform_beginFile_of_mem hname] at hnone
        exact ih.mp hnone name (mem_names_behind_iff.mp hname)
      · rw [perform_beginFile_of_not_mem hname] at hnone
        cases hnone

/-- What is no beginning of a file succeeds as soon as there is one. -/
theorem succeeds_write_iff (h : step.begun? = none) :
    sink.Succeeds {} steps step ↔ ∃ name, sink.Begun {} steps name := by
  rw [← not_iff_not, not_exists, ← current?_behind_eq_none_iff, Succeeds,
    perform_of_begun?_eq_none h]
  cases hcurrent : (sink.behind steps {}).current? with
  | none => simp [write_of_none hcurrent]
  | some current => simp [write_of_current hcurrent]

/-! ## The text of a file -/

/-- Steps that begin no file write to the one that is there. -/
theorem behind_of_idle {before during : List Step} (h : sink.Idle {} before during)
    (hcurrent : (sink.behind before {}).current? = some (name, text)) :
    sink.behind (before ++ during) {} =
      { sink.behind before {} with current? := some (name, text ++ written during) } := by
  induction during using List.reverseRecOn with
  | nil => simp [written, ← hcurrent]
  | append_singleton during step ih =>
    have hbefore : sink.Idle {} before during := fun first name last hduring =>
      h first name (last ++ [step]) (by rw [hduring, List.append_assoc, List.cons_append])
    rw [← List.append_assoc, behind_concat, written_concat]
    cases hbegun : step.begun? with
    | none =>
      rw [perform_of_begun?_eq_none hbegun, ih hbefore, write_of_current rfl, String.append_assoc]
    | some next =>
      obtain rfl := Step.begun?_eq_some_iff.mp hbegun
      rw [state_of_failure (h during next [] rfl), ih hbefore, Step.written, String.append_empty]

/-- What is complete stays as it is. -/
theorem lookup_complete_behind (steps : List Step) (h : b.complete.lookup name = some text) :
    (sink.behind steps b).complete.lookup name = some text := by
  induction steps using List.reverseRecOn with
  | nil => exact h
  | append_singleton steps step ih =>
    rw [behind_concat]
    cases hbegun : step.begun? with
    | none =>
      rw [perform_of_begun?_eq_none hbegun, write]
      cases (sink.behind steps b).current? <;> exact ih
    | some next =>
      obtain rfl := Step.begun?_eq_some_iff.mp hbegun
      by_cases hname : next ∈ (sink.behind steps b).names
      · rwa [perform_beginFile_of_mem hname]
      · rw [perform_beginFile_of_not_mem hname]
        dsimp only
        rw [files, List.lookup_append, ih, Option.some_or]

theorem text?_of_lookup_complete (h : b.complete.lookup name = some text) :
    b.text? name = some text := by
  rw [text?, files, List.lookup_append, h, Option.some_or]

theorem text?_of_current (hcurrent : b.current? = some (name, text))
    (hnew : b.complete.lookup name = none) : b.text? name = some text := by
  rw [text?, files, List.lookup_append, hnew, hcurrent]
  simp

/-- The text of a file is what has been written from its beginning up to that of the next one. -/
theorem text?_of_span {during : List Step} (h : sink.Span {} steps name during) :
    (sink.behind steps {}).text? name = some (written during) := by
  obtain ⟨before, after, rfl, hbegin, hidle, hafter⟩ := h
  have hnew : name ∉ (sink.behind before {}).names := by
    rwa [mem_names_behind_iff, ← succeeds_beginFile_iff]
  have hcomplete : (sink.behind before {}).files.lookup name = none := text?_eq_none_iff.mpr hnew
  have hstart : sink.behind (before ++ [.beginFile name]) {} =
      { complete := (sink.behind before {}).files, current? := some (name, "") } := by
    rw [behind_concat, perform_beginFile_of_not_mem hnew]
  have hduring : sink.behind (before ++ .beginFile name :: during) {} =
      { complete := (sink.behind before {}).files, current? := some (name, written during) } := by
    rw [List.append_cons, behind_of_idle hidle (congrArg FileBuffer.current? hstart), hstart,
      String.empty_append]
  rw [← List.cons_append, ← List.append_assoc]
  rcases hafter with rfl | ⟨next, rest, rfl, hnext⟩
  · rw [List.append_nil, hduring]
    exact text?_of_current rfl hcomplete
  · -- the file is complete as soon as the next one begins
    have hnext' : next ∉ (sink.behind (before ++ .beginFile name :: during) {}).names := by
      rwa [mem_names_behind_iff, ← succeeds_beginFile_iff]
    have hnextStart : sink.behind (before ++ .beginFile name :: during ++ [.beginFile next]) {} =
        { complete := (sink.behind before {}).files ++ [(name, written during)],
          current? := some (next, "") } := by
      rw [behind_concat, perform_beginFile_of_not_mem hnext', hduring]
      rfl
    rw [List.append_cons, behind_append, hnextStart]
    refine text?_of_lookup_complete (lookup_complete_behind rest ?_)
    rw [List.lookup_append, hcomplete]
    simp

/-- Steps can be taken up to the next one that begins a file with success. -/
theorem exists_idle (before steps : List Step) :
    ∃ during after, steps = during ++ after ∧ sink.Idle {} before during ∧
      (after = [] ∨ ∃ next rest, after = .beginFile next :: rest ∧
        sink.Succeeds {} (before ++ during) (.beginFile next)) := by
  induction steps generalizing before with
  | nil => exact ⟨[], [], rfl, fun first name last h => by simp at h, .inl rfl⟩
  | cons step steps ih =>
    by_cases hstep : ∃ name, step = .beginFile name ∧ sink.Succeeds {} before step
    · obtain ⟨name, rfl, hname⟩ := hstep
      refine ⟨[], _, rfl, fun first name last h => by simp at h, .inr ⟨name, steps, rfl, ?_⟩⟩
      rwa [List.append_nil]
    · obtain ⟨during, after, rfl, hidle, hafter⟩ := ih (before ++ [step])
      refine ⟨step :: during, after, rfl, fun first name last hduring => ?_, ?_⟩
      · cases first with
        | nil =>
          obtain ⟨rfl, -⟩ := List.cons_eq_cons.mp hduring
          rw [List.append_nil]
          exact fun hname => hstep ⟨name, rfl, hname⟩
        | cons head first =>
          obtain ⟨rfl, hrest⟩ := List.cons_eq_cons.mp hduring
          rw [List.append_cons]
          exact hidle first name last hrest
      · rwa [List.append_cons]

/-- Every file that has been begun has its steps. -/
theorem exists_span (h : sink.Begun {} steps name) : ∃ during, sink.Span {} steps name during := by
  obtain ⟨before, behind, rfl, hbegin⟩ := h
  obtain ⟨during, after, rfl, hidle, hafter⟩ := exists_idle (before ++ [.beginFile name]) behind
  rw [← List.append_cons] at hafter
  exact ⟨during, before, after, rfl, hbegin, hidle, hafter⟩

theorem begun_of_text? (h : (sink.behind steps {}).text? name = some text) :
    sink.Begun {} steps name := by
  rw [begun_iff, ← mem_names_behind_iff]
  by_contra hnot
  rw [text?_eq_none_iff.mpr hnot] at h
  cases h

theorem text?_eq_some_iff :
    (sink.behind steps {}).text? name = some text ↔
      ∃ during, sink.Span {} steps name during ∧ text = written during := by
  constructor
  · intro h
    obtain ⟨during, hspan⟩ := exists_span (begun_of_text? h)
    rw [text?_of_span hspan] at h
    exact ⟨during, hspan, (Option.some.inj h).symm⟩
  · rintro ⟨during, hspan, rfl⟩
    exact text?_of_span hspan

end FileBuffer

end ApiClient
