import ApiClient.Proofs.Execution.Schedule
import ApiClient.Sink.Buffer

/-!
# How far an execution gets

* `performAll`, `writeAll_eq`: writing all files is performing their schedule;
* `recorded`, `recording`: sinks that keep a record of what is asked of them;
* `Succeeds`, `FailsAt`, `performAll_recorded`: a run of calls and its record;
* `StopsAt`, `writeAll_recording_cases`: how far files are written;
* `execute_follows_schedule`: an execution makes the calls of its schedule up to the first that
  fails.
-/

namespace ApiClient

variable {ε σ ι : Type}

namespace Execution

/-! ## Performing calls -/

/-- What a call does. -/
def Call.perform (sinks : ι → Sink ε σ) (call : Call ι) : σ → Outcome ε σ :=
  (sinks call.position).perform call.step

/-- Performs calls one after the other, up to the first that fails. -/
def performAll (sinks : ι → Sink ε σ) : List (Call ι) → σ → Outcome ε σ
  | [], s => { state := s }
  | call :: calls, s => (call.perform sinks s).andThen (performAll sinks calls)

theorem performAll_append (sinks : ι → Sink ε σ) (calls calls' : List (Call ι)) (s : σ) :
    performAll sinks (calls ++ calls') s =
      (performAll sinks calls s).andThen (performAll sinks calls') := by
  induction calls generalizing s with
  | nil => rfl
  | cons call calls ih =>
    rw [List.cons_append, performAll, performAll, Outcome.andThen_assoc, funext ih]

theorem writeFile_eq (sinks : ι → Sink ε σ) (file : SourceFile) (i : ι) (s : σ) :
    writeFile file (sinks i) s = performAll sinks (callsTo file i) s := by
  have hwrite : performAll sinks [⟨i, .write file.contents⟩] = (sinks i).write file.contents :=
    funext fun s => Outcome.andThen_done _
  rw [writeFile, ← hwrite]
  rfl

theorem writeToEach_eq (sinks : ι → Sink ε σ) (file : SourceFile) (positions : List ι) (s : σ) :
    writeToEach file (positions.map sinks) s =
      performAll sinks (positions.flatMap (callsTo file)) s := by
  induction positions generalizing s with
  | nil => rfl
  | cons i positions ih =>
    rw [List.map_cons, writeToEach, writeFile_eq, List.flatMap_cons, performAll_append, funext ih]

/-- Writing all files is performing their schedule. -/
theorem writeAll_eq (sinks : ι → Sink ε σ) (positions : List ι) (files : List SourceFile) (s : σ) :
    writeAll (positions.map sinks) files s = performAll sinks (schedule positions files) s := by
  induction files generalizing s with
  | nil => rfl
  | cons file files ih =>
    rw [writeAll, writeToEach_eq, schedule, List.flatMap_cons, performAll_append, funext ih]
    rfl

/-! ## Records -/

/-- A sink that keeps a record of what is asked of it, whether it fails or not. -/
def recorded (i : ι) (sink : Sink ε σ) : Sink ε (σ × List (Call ι)) where
  beginFile name t := (sink.beginFile name t.1).map (·, t.2 ++ [⟨i, .beginFile name⟩])
  write data t := (sink.write data t.1).map (·, t.2 ++ [⟨i, .write data⟩])
  newline t := (sink.newline t.1).map (·, t.2 ++ [⟨i, .newline⟩])

/-- Sinks that keep one record together. -/
def recordedEach (sinks : ι → Sink ε σ) (i : ι) : Sink ε (σ × List (Call ι)) :=
  recorded i (sinks i)

/-- The sinks of a list with one record, in which each has its position. -/
def recording (sinks : List (Sink ε σ)) : List (Sink ε (σ × List (Call (Fin sinks.length)))) :=
  (List.finRange sinks.length).map (recordedEach sinks.get)

theorem map_perform_recorded (sinks : ι → Sink ε σ) (call : Call ι) (t : σ × List (Call ι)) :
    (call.perform (recordedEach sinks) t).map Prod.fst = call.perform sinks t.1 := by
  obtain ⟨i, step⟩ := call
  cases step <;> rfl

/-- A record does not change what calls do. -/
theorem map_performAll_recorded (sinks : ι → Sink ε σ) (calls : List (Call ι))
    (t : σ × List (Call ι)) :
    (performAll (recordedEach sinks) calls t).map Prod.fst =
      performAll sinks calls t.1 := by
  induction calls generalizing t with
  | nil => rfl
  | cons call calls ih =>
    rw [performAll, Outcome.map_andThen ih, map_perform_recorded]
    rfl

/-- A character is recorded as a text, every other operation as it is. -/
theorem perform_recorded (sinks : ι → Sink ε σ) {call : Call ι}
    (h : ∀ c, call.step ≠ .writeChar c) (s : σ) (log : List (Call ι)) :
    call.perform (recordedEach sinks) (s, log) =
      (call.perform sinks s).map (·, log ++ [call]) := by
  obtain ⟨i, step⟩ := call
  cases step with
  | writeChar c => exact absurd rfl (h c)
  | _ => rfl

/-- All calls succeed one after the other. -/
inductive Succeeds (sinks : ι → Sink ε σ) : List (Call ι) → σ → σ → Prop
  | nil (s : σ) : Succeeds sinks [] s s
  | cons {call : Call ι} {calls : List (Call ι)} {s s₁ s₂ : σ}
      (hcall : call.perform sinks s = { state := s₁ }) (hcalls : Succeeds sinks calls s₁ s₂) :
      Succeeds sinks (call :: calls) s s₂

/-- Calls succeed one after the other, and the one behind them fails. -/
def FailsAt (sinks : ι → Sink ε σ) (before : List (Call ι)) (call : Call ι) (s s' : σ) (e : ε) :
    Prop :=
  ∃ s₁, Succeeds sinks before s s₁ ∧ call.perform sinks s₁ = { state := s', failure? := some e }

theorem performAll_of_succeeds {sinks : ι → Sink ε σ} {calls : List (Call ι)} {s s' : σ}
    (h : Succeeds sinks calls s s') : performAll sinks calls s = { state := s' } := by
  induction h with
  | nil s => rfl
  | cons hcall _ ih => rw [performAll, hcall, Outcome.andThen_of_success, ih]

theorem FailsAt.cons {sinks : ι → Sink ε σ} {first call : Call ι} {before : List (Call ι)}
    {s s₁ s' : σ} {e : ε} (hfirst : first.perform sinks s = { state := s₁ })
    (h : FailsAt sinks before call s₁ s' e) : FailsAt sinks (first :: before) call s s' e := by
  obtain ⟨s₂, hbefore, hcall⟩ := h
  exact ⟨s₂, .cons hfirst hbefore, hcall⟩

theorem failure?_performAll_eq_none_iff {sinks : ι → Sink ε σ} {calls : List (Call ι)} {s : σ} :
    (performAll sinks calls s).failure? = none ↔ ∃ s', Succeeds sinks calls s s' := by
  constructor
  · intro h
    induction calls generalizing s with
    | nil => exact ⟨s, .nil s⟩
    | cons call calls ih =>
      rw [performAll] at h
      rcases hperform : call.perform sinks s with ⟨s₁, _ | e⟩
      · rw [hperform, Outcome.andThen_of_success] at h
        obtain ⟨s', hcalls⟩ := ih h
        exact ⟨s', .cons hperform hcalls⟩
      · rw [hperform] at h
        cases h
  · rintro ⟨s', h⟩
    rw [performAll_of_succeeds h]

/-- All calls succeed and are recorded, or those up to the first that fails are. -/
theorem performAll_recorded (sinks : ι → Sink ε σ) {calls : List (Call ι)}
    (h : ∀ call ∈ calls, ∀ c, call.step ≠ .writeChar c) (s : σ) (log : List (Call ι)) :
    (∃ s', Succeeds sinks calls s s' ∧
        performAll (recordedEach sinks) calls (s, log) =
          { state := (s', log ++ calls) }) ∨
      ∃ before call after s' e, calls = before ++ call :: after ∧
        FailsAt sinks before call s s' e ∧
        performAll (recordedEach sinks) calls (s, log) =
          { state := (s', log ++ (before ++ [call])), failure? := some e } := by
  -- the record is any, since the calls behind the first are made with that one in it
  induction calls generalizing s log with
  | nil => exact .inl ⟨s, .nil s, by rw [performAll, List.append_nil]⟩
  | cons call calls ih =>
    obtain ⟨hcall, hcalls⟩ := List.forall_mem_cons.mp h
    rw [performAll, perform_recorded sinks hcall]
    rcases hperform : call.perform sinks s with ⟨s₁, _ | e⟩
    · rcases ih hcalls s₁ (log ++ [call]) with
        ⟨s', hs, hrun⟩ | ⟨before, last, after, s', e, rfl, hfails, hrun⟩
      · refine .inl ⟨s', .cons hperform hs, ?_⟩
        rw [Outcome.map, Outcome.andThen_of_success, hrun, List.append_assoc, List.singleton_append]
      · refine .inr ⟨call :: before, last, after, s', e, rfl, hfails.cons hperform, ?_⟩
        rw [Outcome.map, Outcome.andThen_of_success, hrun, List.append_assoc, List.singleton_append,
          List.cons_append]
    · exact .inr ⟨[], call, calls, s₁, e, rfl, ⟨s, .nil s, hperform⟩, rfl⟩

/-! ## Executions -/

variable {config : Config} {sources : List Source} {sinks : List (Sink ε σ)}

/-- The schedule of files for all sinks of a list. -/
def scheduleFor (sinks : List (Sink ε σ)) (files : List SourceFile) :
    List (Call (Fin sinks.length)) :=
  schedule (List.finRange sinks.length) files

/-- An execution that ends early has made the calls of its schedule up to and with the first that
fails. Every position was given the files in order, and the positions before that of the call have
taken one file more than the others. -/
structure StopsAt (sinks : List (Sink ε σ)) (files : List SourceFile) (s : σ)
    (before : List (Call (Fin sinks.length))) (call : Call (Fin sinks.length)) (s' : σ) (e : ε) :
    Prop where
  scheduled : before ++ [call] <+: scheduleFor sinks files
  fails : FailsAt sinks.get before call s s' e
  inOrder : ∀ i, given i (before ++ [call]) <+: files.flatMap stepsOf
  taken : ∃ n < files.length, ∀ i, completed i before = if i < call.position then n + 1 else n

theorem stopsAt_of_failsAt {files : List SourceFile} {s s' : σ}
    {before after : List (Call (Fin sinks.length))} {call : Call (Fin sinks.length)} {e : ε}
    (h : scheduleFor sinks files = before ++ call :: after)
    (hfails : FailsAt sinks.get before call s s' e) : StopsAt sinks files s before call s' e := by
  have hbegins : before ++ [call] <+: scheduleFor sinks files := ⟨after, by rw [h]; simp⟩
  refine ⟨hbegins, hfails, fun i => ?_, completed_of_schedule h⟩
  rw [← given_schedule (List.nodup_finRange sinks.length) (List.mem_finRange i) files]
  exact given_of_prefix hbegins i

theorem recording_eq_nil_iff : recording sinks = [] ↔ sinks = [] := by
  rw [recording, List.map_eq_nil_iff, List.finRange_eq_nil_iff, List.length_eq_zero_iff]

theorem writeAll_recording (sinks : List (Sink ε σ)) (files : List SourceFile)
    (t : σ × List (Call (Fin sinks.length))) :
    writeAll (recording sinks) files t =
      performAll (recordedEach sinks.get) (scheduleFor sinks files) t :=
  writeAll_eq _ _ files t

theorem map_writeAll_recording (sinks : List (Sink ε σ)) (files : List SourceFile)
    (t : σ × List (Call (Fin sinks.length))) :
    (writeAll (recording sinks) files t).map Prod.fst = writeAll sinks files t.1 := by
  rw [writeAll_recording, map_performAll_recorded, scheduleFor, ← writeAll_eq,
    List.map_get_finRange]

theorem failure?_writeAll_eq_none_iff {files : List SourceFile} {s : σ} :
    (writeAll sinks files s).failure? = none ↔
      ∃ s', Succeeds sinks.get (scheduleFor sinks files) s s' := by
  rw [← failure?_performAll_eq_none_iff, scheduleFor, ← writeAll_eq, List.map_get_finRange]

/-- All files are written, or those up to the first failure are. -/
theorem writeAll_recording_cases (sinks : List (Sink ε σ)) (files : List SourceFile) (s : σ) :
    (∃ s', Succeeds sinks.get (scheduleFor sinks files) s s' ∧
        writeAll (recording sinks) files (s, []) = { state := (s', scheduleFor sinks files) }) ∨
      ∃ before call s' e, StopsAt sinks files s before call s' e ∧
        writeAll (recording sinks) files (s, []) =
          { state := (s', before ++ [call]), failure? := some e } := by
  have hsteps : ∀ call ∈ scheduleFor sinks files, ∀ c, call.step ≠ .writeChar c :=
    fun call hcall => step_of_mem_schedule hcall
  rw [writeAll_recording]
  rcases performAll_recorded sinks.get hsteps s [] with
    ⟨s', hs, hrun⟩ | ⟨before, call, after, s', e, hcalls, hfails, hrun⟩
  · exact .inl ⟨s', hs, hrun⟩
  · exact .inr ⟨before, call, s', e, stopsAt_of_failsAt hcalls hfails, hrun⟩

theorem execute_nil_sources (s : σ) :
    execute config [] sinks s = { state := s, failure? := some .noInputs } := rfl

theorem execute_nil_sinks (h : sources ≠ []) (s : σ) :
    execute config sources ([] : List (Sink ε σ)) s =
      { state := s, failure? := some .noOutputs } := by
  rw [execute, if_neg (by simpa using h), if_pos List.isEmpty_nil]

theorem execute_of_error {fault : Generation.Fault} (h : sources ≠ []) (hsinks : sinks ≠ [])
    (hg : Generation.prepare config sources = .error fault) (s : σ) :
    execute config sources sinks s = { state := s, failure? := some (.generation fault) } := by
  rw [execute, if_neg (by simpa using h), if_neg (by simpa using hsinks), hg]

theorem execute_of_ok {g : Generation} (h : sources ≠ []) (hsinks : sinks ≠ [])
    (hg : Generation.prepare config sources = .ok g) (s : σ) :
    execute config sources sinks s = (writeAll sinks g.files s).mapFailure .sink := by
  rw [execute, if_neg (by simpa using h), if_neg (by simpa using hsinks), hg]

/-- A record does not change what an execution does. -/
theorem map_execute_recording (config : Config) (sources : List Source) (sinks : List (Sink ε σ))
    (t : σ × List (Call (Fin sinks.length))) :
    (execute config sources (recording sinks) t).map Prod.fst =
      execute config sources sinks t.1 := by
  by_cases h : sources = []
  · subst h
    rfl
  by_cases hsinks : sinks = []
  · subst hsinks
    rw [recording_eq_nil_iff.mpr rfl, execute_nil_sinks h, execute_nil_sinks h]
    rfl
  have hrecording := mt recording_eq_nil_iff.mp hsinks
  cases hg : Generation.prepare config sources with
  | error fault =>
    rw [execute_of_error h hrecording hg, execute_of_error h hsinks hg]
    rfl
  | ok g =>
    rw [execute_of_ok h hrecording hg, execute_of_ok h hsinks hg, ← map_writeAll_recording]
    rfl

/-- An execution makes the calls of its schedule in order, up to and with the first that fails, and
succeeds if none of them does. It makes no call if there is nothing to generate or nowhere to write
it. -/
theorem execute_follows_schedule (config : Config) (sources : List Source)
    (sinks : List (Sink ε σ)) (s : σ) :
    (execute config sources (recording sinks) (s, [])).map Prod.fst =
        execute config sources sinks s ∧
      (sources = [] → execute config sources (recording sinks) (s, []) =
        { state := (s, []), failure? := some .noInputs }) ∧
      (sources ≠ [] → sinks = [] → execute config sources (recording sinks) (s, []) =
        { state := (s, []), failure? := some .noOutputs }) ∧
      (sources ≠ [] → sinks ≠ [] → ∀ fault, Generation.prepare config sources = .error fault →
        execute config sources (recording sinks) (s, []) =
          { state := (s, []), failure? := some (.generation fault) }) ∧
      (sources ≠ [] → sinks ≠ [] → ∀ g, Generation.prepare config sources = .ok g →
        ((execute config sources sinks s).failure? = none ↔
          ∃ s', Succeeds sinks.get (scheduleFor sinks g.files) s s') ∧
        ((∃ s', Succeeds sinks.get (scheduleFor sinks g.files) s s' ∧
            execute config sources (recording sinks) (s, []) =
              { state := (s', scheduleFor sinks g.files) }) ∨
          ∃ before call s' e, StopsAt sinks g.files s before call s' e ∧
            execute config sources (recording sinks) (s, []) =
              { state := (s', before ++ [call]), failure? := some (.sink e) })) := by
  refine ⟨map_execute_recording config sources sinks (s, []), ?_, ?_, ?_, ?_⟩
  · rintro rfl
    exact execute_nil_sources (s, [])
  · intro h hsinks
    rw [recording_eq_nil_iff.mpr hsinks, execute_nil_sinks h]
  · exact fun h hsinks fault hg => execute_of_error h (mt recording_eq_nil_iff.mp hsinks) hg _
  · intro h hsinks g hg
    rw [execute_of_ok h hsinks hg, execute_of_ok h (mt recording_eq_nil_iff.mp hsinks) hg]
    constructor
    · rw [← failure?_writeAll_eq_none_iff]
      exact Option.map_eq_none_iff
    · rcases writeAll_recording_cases sinks g.files s with
        ⟨s', hs, hrun⟩ | ⟨before, call, s', e, hstops, hrun⟩
      · refine .inl ⟨s', hs, ?_⟩
        rw [hrun]
        rfl
      · refine .inr ⟨before, call, s', e, hstops, ?_⟩
        rw [hrun]
        rfl

/-- The same sink twice: it does not begin a file for the second time. -/
theorem execute_follows_schedule_twice :
    ∃ g, Generation.prepare ⟨[.json], none, .json, none⟩
        [.listed [⟨"find", .get, "items", []⟩]] = .ok g ∧
      ∃ before call s', StopsAt [FileBuffer.sink, FileBuffer.sink] g.files {} before call s'
        (.repeated "api.rs") := by
  obtain ⟨hmap, -, -, -, hruns⟩ := execute_follows_schedule ⟨[.json], none, .json, none⟩
    [.listed [⟨"find", .get, "items", []⟩]] [FileBuffer.sink, FileBuffer.sink] {}
  have hfailure : (execute ⟨[.json], none, .json, none⟩ [.listed [⟨"find", .get, "items", []⟩]]
      [FileBuffer.sink, FileBuffer.sink] {}).failure? = some (.sink (.repeated "api.rs")) := by rfl
  refine ⟨_, rfl, ?_⟩
  obtain ⟨hiff, ⟨s', hs, -⟩ | ⟨before, call, s', e, hstops, hrun⟩⟩ :=
    hruns (List.cons_ne_nil _ _) (List.cons_ne_nil _ _) _ rfl
  · rw [hiff.mpr ⟨s', hs⟩] at hfailure
    exact absurd hfailure.symm (Option.some_ne_none _)
  · rw [← hmap, hrun] at hfailure
    cases hfailure
    exact ⟨before, call, s', hstops⟩

end Execution

end ApiClient
