import ApiClient.Proofs.Sink.History
import ApiClient.Sink.Table

/-!
# Two containers in step

* `FileTable.Consistent`: the names in order are those that have a buffer, and each stands once;
* `perform_beginFile_…`, `perform_write_…`, `perform_cases`: what a step does to a table;
* `Consistent.perform`, `consistent_behind`: no step brings the containers out of step;
* `Consistent.map_latest?`: the file that was begun last is found through both;
* `FileTable.Stands`: a table that stands for a file buffer;
* `Stands.perform`, `stands_behind`: what is done with both, they fail alike and the table goes on
  standing for the buffer;
* `succeeds_eq`: the same steps succeed with tables as with file buffers;
* `files_follow_history`: the files of a table after any steps.
-/

namespace ApiClient

namespace Sink

variable {ε σ τ : Type} {sink : Sink ε σ} {other : Sink ε τ} {start : σ} {start' : τ}

/-- Which steps succeed decides which files have been begun. -/
theorem begun_congr (h : sink.Succeeds start = other.Succeeds start') :
    sink.Begun start = other.Begun start' := by
  funext steps name
  rw [Begun, Begun, h]

/-- Which steps succeed decides which steps write to a file. -/
theorem span_congr (h : sink.Succeeds start = other.Succeeds start') :
    sink.Span start = other.Span start' := by
  funext steps name during
  simp only [Span, Idle, h]

end Sink

namespace FileTable

open Sink

variable {t : FileTable} {b : FileBuffer} {step : Step} {name : String} {buffer : Buffer}

/-- The containers hold the same names, and each name was begun once. -/
structure Consistent (t : FileTable) : Prop where
  nodup : t.order.Nodup
  mem_order_iff : ∀ name, name ∈ t.order ↔ (Entries.find? name t.data).isSome

/-! ## One step -/

theorem perform_beginFile_of_some (h : (Entries.find? name t.data).isSome) :
    sink.perform (.beginFile name) t = { state := t, failure? := some (.repeated name) } :=
  if_pos h

theorem perform_beginFile_of_none (h : ¬ (Entries.find? name t.data).isSome) :
    sink.perform (.beginFile name) t =
      { state := { data := Entries.insert name {} t.data, order := t.order ++ [name] } } :=
  if_neg h

theorem update_of_some {operation : Buffer → Outcome FileBuffer.Fault Buffer}
    (h : t.latest? = some (name, buffer)) :
    update operation t = (operation buffer).map fun buffer =>
      { t with data := Entries.insert name buffer t.data } := by
  rw [update, h]

theorem update_of_none {operation : Buffer → Outcome FileBuffer.Fault Buffer}
    (h : t.latest? = none) : update operation t = { state := t, failure? := some .noFile } := by
  rw [update, h]

theorem perform_write_of_some (hstep : step.begun? = none) (h : t.latest? = some (name, buffer)) :
    sink.perform step t =
      { state := { t with data := Entries.insert name (buffer.append step.written) t.data } } := by
  cases step with
  | beginFile name => cases hstep
  | write | writeChar | newline => exact update_of_some h

theorem perform_write_of_none (hstep : step.begun? = none) (h : t.latest? = none) :
    sink.perform step t = { state := t, failure? := some .noFile } := by
  cases step with
  | beginFile name => cases hstep
  | write | writeChar | newline => exact update_of_none h

theorem text?_insert (order : List String) (other : String) :
    text? { data := Entries.insert name buffer t.data, order } other =
      if other = name then some buffer.text else t.text? other := by
  rw [text?, text?]
  dsimp only
  split_ifs with hother
  · rw [hother, Entries.find?_insert_self, Option.map_some]
  · rw [Entries.find?_insert_of_ne hother]

theorem latest?_eq_some_iff : t.latest? = some (name, buffer) ↔
    t.order.getLast? = some name ∧ Entries.find? name t.data = some buffer := by
  rw [latest?, Option.bind_eq_some_iff]
  constructor
  · rintro ⟨last, hlast, hmap⟩
    obtain ⟨found, hfound, hpair⟩ := Option.map_eq_some_iff.mp hmap
    obtain ⟨rfl, rfl⟩ := Prod.mk.inj hpair
    exact ⟨hlast, hfound⟩
  · rintro ⟨hlast, hfound⟩
    exact ⟨name, hlast, by rw [hfound, Option.map_some]⟩

/-- The last name in order always has a buffer, so the latest file is found through both. -/
theorem Consistent.map_latest? (h : t.Consistent) : t.latest?.map (·.1) = t.order.getLast? := by
  rw [latest?]
  cases hlast : t.order.getLast? with
  | none => rfl
  | some name =>
    have hsome := (h.mem_order_iff name).mp (List.mem_of_getLast? hlast)
    obtain ⟨buffer, hfound⟩ := Option.isSome_iff_exists.mp hsome
    simp [hfound]

/-- A step fails and leaves everything as it was, or it begins a new file, or it writes to the
latest one. -/
theorem perform_cases (step : Step) (t : FileTable) :
    (∃ fault, sink.perform step t = { state := t, failure? := some fault }) ∨
      (∃ name, ¬ (Entries.find? name t.data).isSome ∧ sink.perform step t =
        { state := { data := Entries.insert name {} t.data, order := t.order ++ [name] } }) ∨
      ∃ name buffer, t.latest? = some (name, buffer) ∧ sink.perform step t = { state :=
        { t with data := Entries.insert name (buffer.append step.written) t.data } } := by
  cases hbegun : step.begun? with
  | some name =>
    obtain rfl := Step.begun?_eq_some_iff.mp hbegun
    by_cases hname : (Entries.find? name t.data).isSome
    · exact .inl ⟨_, perform_beginFile_of_some hname⟩
    · exact .inr (.inl ⟨name, hname, perform_beginFile_of_none hname⟩)
  | none =>
    cases hlatest : t.latest? with
    | none => exact .inl ⟨_, perform_write_of_none hbegun hlatest⟩
    | some file => exact .inr (.inr ⟨_, _, rfl, perform_write_of_some hbegun hlatest⟩)

/-- No step brings the containers out of step, whether it succeeds or not. -/
theorem Consistent.perform (h : t.Consistent) (step : Step) :
    (sink.perform step t).state.Consistent := by
  obtain ⟨fault, hstep⟩ | ⟨name, hname, hstep⟩ | ⟨name, buffer, hlatest, hstep⟩ :=
    perform_cases step t
  all_goals rw [hstep]
  · exact h
  · have hnew : name ∉ t.order := fun hmem => hname ((h.mem_order_iff name).mp hmem)
    have hnodup : (t.order ++ [name]).Nodup := by
      rw [← List.concat_eq_append]
      exact h.nodup.concat hnew
    refine ⟨hnodup, fun other => ?_⟩
    rw [Entries.isSome_find?_insert, List.mem_append, List.mem_singleton, h.mem_order_iff,
      or_comm]
  · refine ⟨h.nodup, fun other => ?_⟩
    have hmem : name ∈ t.order := List.mem_of_getLast? (latest?_eq_some_iff.mp hlatest).1
    rw [Entries.isSome_find?_insert, ← h.mem_order_iff]
    exact ⟨.inr, fun hother => hother.elim (fun he => he ▸ hmem) id⟩

/-- A step that fails leaves everything as it was. -/
theorem state_of_failure (h : (sink.perform step t).failure? ≠ none) :
    (sink.perform step t).state = t := by
  obtain ⟨fault, hstep⟩ | ⟨name, -, hstep⟩ | ⟨name, buffer, -, hstep⟩ := perform_cases step t
  · rw [hstep]
  · exact absurd (congrArg Outcome.failure? hstep) h
  · exact absurd (congrArg Outcome.failure? hstep) h

/-! ## Steps one after the other -/

theorem consistent_behind (steps : List Step) : (sink.behind steps {}).Consistent := by
  induction steps using List.reverseRecOn with
  | nil => exact ⟨List.nodup_nil, fun name => by simp [Sink.behind, Entries.find?]⟩
  | append_singleton steps step ih =>
    rw [behind_concat]
    exact ih.perform step

/-! ## Tables and file buffers -/

/-- A table that stands for a file buffer: they have the same files in the same order, and the same
one is written to. -/
structure Stands (t : FileTable) (b : FileBuffer) : Prop extends Consistent t where
  order : t.order = b.names
  text? : ∀ name, t.text? name = b.text? name
  latest? : t.latest?.map (fun file => (file.1, file.2.text)) = b.current?

theorem Stands.isSome_iff (h : t.Stands b) :
    (Entries.find? name t.data).isSome ↔ name ∈ b.names := by
  rw [← h.mem_order_iff, h.order]

/-- A step fails with both or with none, and behind it the table still stands for the buffer. -/
theorem Stands.perform (h : t.Stands b) (step : Step) :
    (sink.perform step t).failure? = (FileBuffer.sink.perform step b).failure? ∧
      (sink.perform step t).state.Stands (FileBuffer.sink.perform step b).state := by
  have hconsistent := h.toConsistent.perform step
  cases hbegun : step.begun? with
  | some name =>
    obtain rfl := Step.begun?_eq_some_iff.mp hbegun
    by_cases hname : name ∈ b.names
    · rw [perform_beginFile_of_some (h.isSome_iff.mpr hname),
        FileBuffer.perform_beginFile_of_mem hname]
      exact ⟨rfl, h⟩
    · have htext := FileBuffer.text?_beginFile hname
      rw [perform_beginFile_of_none (h.isSome_iff.not.mpr hname)] at hconsistent ⊢
      rw [FileBuffer.perform_beginFile_of_not_mem hname] at htext ⊢
      refine ⟨rfl, hconsistent, ?_, fun other => ?_, ?_⟩
      · simp [FileBuffer.names, FileBuffer.files, h.order]
      · rw [htext, text?_insert, h.text?]
      · simp [FileTable.latest?, Entries.find?_insert_self]
  | none =>
    rw [FileBuffer.perform_of_begun?_eq_none hbegun]
    have hcurrent := h.latest?
    cases hlatest : t.latest? with
    | none =>
      rw [hlatest, Option.map_none] at hcurrent
      rw [perform_write_of_none hbegun hlatest, FileBuffer.write_of_none hcurrent.symm]
      exact ⟨rfl, h⟩
    | some file =>
      rw [hlatest, Option.map_some] at hcurrent
      have hnodup : b.names.Nodup := h.order ▸ h.nodup
      have htext := FileBuffer.text?_write hcurrent.symm hnodup step.written
      have hnames := FileBuffer.names_write step.written b
      rw [perform_write_of_some hbegun hlatest] at hconsistent ⊢
      rw [FileBuffer.write_of_current hcurrent.symm] at htext hnames ⊢
      refine ⟨rfl, hconsistent, h.order.trans hnames.symm, fun other => ?_, ?_⟩
      · rw [htext, text?_insert, h.text?]
        rfl
      · simp [FileTable.latest?, (latest?_eq_some_iff.mp hlatest).1, Entries.find?_insert_self,
          Buffer.append]

theorem stands_behind (steps : List Step) :
    (sink.behind steps {}).Stands (FileBuffer.sink.behind steps {}) := by
  induction steps using List.reverseRecOn with
  | nil => exact ⟨consistent_behind [], rfl, fun name => rfl, rfl⟩
  | append_singleton steps step ih =>
    rw [behind_concat, behind_concat]
    exact (ih.perform step).2

/-- The same steps succeed with tables as with file buffers. -/
theorem succeeds_eq : sink.Succeeds {} = FileBuffer.sink.Succeeds {} := by
  funext steps step
  rw [Succeeds, Succeeds, ((stands_behind steps).perform step).1]

/-! ## The files after any steps -/

/-- The files of a table after any steps, some of which may have failed. The names in order are
those under which there is a text, in the order in which they came first and each once, and writes
go to the last of them. The text of a file is what has been written from its beginning up to that of
the next one. Beginning a file fails if it has been begun before, writing fails if none has, and
failing has no effect: not on what is there, and not on what further steps do. -/
theorem files_follow_history (steps : List Step) :
    (sink.behind steps {}).order.Nodup ∧
      (∀ name, name ∈ (sink.behind steps {}).order ↔
        ∃ text, (sink.behind steps {}).text? name = some text) ∧
      (sink.behind steps {}).order = (steps.filterMap Step.begun?).eraseDups ∧
      (sink.behind steps {}).latest?.map (·.1) = (sink.behind steps {}).order.getLast? ∧
      (∀ name text, (sink.behind steps {}).text? name = some text ↔
        ∃ during, sink.Span {} steps name during ∧ text = written during) ∧
      (∀ name, ¬ sink.Succeeds {} steps (.beginFile name) ↔ sink.Begun {} steps name) ∧
      (∀ step : Step, step.begun? = none →
        (¬ sink.Succeeds {} steps step ↔ ∀ name, ¬ sink.Begun {} steps name)) ∧
      ∀ step, ¬ sink.Succeeds {} steps step →
        sink.behind (steps ++ [step]) {} = sink.behind steps {} ∧
          ∀ more, sink.behind (steps ++ step :: more) {} = sink.behind (steps ++ more) {} := by
  have hstands := stands_behind steps
  rw [begun_congr succeeds_eq, span_congr succeeds_eq]
  refine ⟨hstands.nodup, fun name => ?_, ?_, hstands.map_latest?, fun name text => ?_,
    fun name => ?_, fun step hstep => ?_, fun step hstep => ⟨?_, fun more => ?_⟩⟩
  · rw [hstands.mem_order_iff, ← Option.isSome_iff_exists, text?, Option.isSome_map]
  · rw [hstands.order, FileBuffer.names_behind]
  · rw [hstands.text?, FileBuffer.text?_eq_some_iff]
  · rw [succeeds_eq, FileBuffer.succeeds_beginFile_iff, FileBuffer.begun_iff, not_not]
  · rw [succeeds_eq, FileBuffer.succeeds_write_iff hstep, not_exists]
  · rw [behind_concat, state_of_failure hstep]
  · rw [List.append_cons, behind_append, behind_concat, state_of_failure hstep, ← behind_append]

/-- A write before any file has begun, and a file that is begun again while another one is being
written. -/
theorem files_follow_history_again :
    ¬ sink.Succeeds {} [] .newline ∧
      ¬ sink.Succeeds {} [.newline, .beginFile "a", .write "x", .beginFile "b"] (.beginFile "a") ∧
      (sink.behind [.newline, .beginFile "a", .write "x", .beginFile "b", .beginFile "a",
        .writeChar 'y'] {}).text? "a" = some "x" ∧
      sink.behind [.newline, .beginFile "a", .write "x", .beginFile "b", .beginFile "a",
        .writeChar 'y'] {} =
          sink.behind [.newline, .beginFile "a", .write "x", .beginFile "b",
            .writeChar 'y'] {} := by
  have hbegun : sink.Begun {} [.newline, .beginFile "a", .write "x", .beginFile "b"] "a" :=
    ⟨[.newline], _, rfl, by decide⟩
  have hspan : sink.Span {} [.newline, .beginFile "a", .write "x", .beginFile "b", .beginFile "a",
      .writeChar 'y'] "a" [.write "x"] := by
    refine ⟨[.newline], _, rfl, by decide, ?_, .inr ⟨"b", _, rfl, by decide⟩⟩
    rintro (_ | ⟨head, _ | ⟨next, first⟩⟩) name last hduring <;> simp at hduring
  obtain ⟨-, -, -, -, -, hagain, -, hfailed⟩ :=
    files_follow_history [.newline, .beginFile "a", .write "x", .beginFile "b"]
  obtain ⟨-, -, -, -, -, -, hnone, -⟩ := files_follow_history []
  refine ⟨(hnone .newline rfl).mpr fun name => ?_, (hagain "a").mpr hbegun, ?_,
    (hfailed _ ((hagain "a").mpr hbegun)).2 [.writeChar 'y']⟩
  · rw [begun_congr succeeds_eq]
    simp [FileBuffer.begun_iff]
  · exact ((files_follow_history _).2.2.2.2.1 "a" "x").mpr ⟨_, hspan, rfl⟩

end FileTable

end ApiClient
