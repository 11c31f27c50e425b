import Mathlib.Data.List.ProdSigma
import ApiClient.Proofs.Execution.Progress
import ApiClient.Proofs.Output.Taking

/-!
# Files for several outputs

* `writeFile_within`: a file for a sink on a part of a larger state;
* `callsOf`, `schedule_eq_callsOf`: a schedule as a list of files with the positions they go to;
* `givenFiles`, `givenFiles_product`: the files that go to one position;
* `Workspace.takes`, `writeFile_of_fits`, `writeFile_of_not_fits`: a file for one output of several;
* `Workspace.Accepts`, `performAll_of_accepts`, `accepts_of_performAll`: when all files are taken;
* `outputs_takesAll`, `shown_takesAll`, `storage_takesAll`: what there is behind them.
-/

namespace ApiClient

namespace Execution

variable {ε σ τ : Type}

/-- A sink on a part of a larger state takes a file as it does on its own. -/
theorem writeFile_within {get : τ → σ} {set : τ → σ → τ} {t : τ} (hget : ∀ s, get (set t s) = s)
    (hset : ∀ s s', set (set t s) s' = set t s') (file : SourceFile) (sink : Sink ε σ) :
    writeFile file (sink.within get set) t = (writeFile file sink (get t)).map (set t) := by
  have hwrite : ∀ s, (sink.write file.contents s).map (set t) =
      (sink.within get set).write file.contents (set t s) := by
    intro s
    have hsame : set (set t s) = set t := funext (hset s)
    rw [Sink.within]
    dsimp only
    rw [hget, hsame]
  rw [writeFile, writeFile, Outcome.map_andThen hwrite]
  rfl

/-! ## The files of a position -/

/-- The calls by which files go to positions, in order. -/
def callsOf {ι : Type} (deliveries : List (SourceFile × ι)) : List (Call ι) :=
  deliveries.flatMap fun d => callsTo d.1 d.2

theorem schedule_eq_callsOf {ι : Type} (positions : List ι) (files : List SourceFile) :
    schedule positions files = callsOf (files ×ˢ positions) := by
  induction files with
  | nil => rfl
  | cons file files ih =>
    rw [List.product_cons, callsOf, List.flatMap_append, List.flatMap_map, ← callsOf, ← ih]
    rfl

theorem performAll_callsOf_cons {ι : Type} (sinks : ι → Sink ε σ) (d : SourceFile × ι)
    (deliveries : List (SourceFile × ι)) (s : σ) :
    performAll sinks (callsOf (d :: deliveries)) s =
      (writeFile d.1 (sinks d.2) s).andThen (performAll sinks (callsOf deliveries)) := by
  rw [callsOf, List.flatMap_cons, performAll_append, ← writeFile_eq]
  rfl

/-- The files that go to a position. -/
def givenFiles (i : Nat) (deliveries : List (SourceFile × Nat)) : List SourceFile :=
  (deliveries.filter (·.2 = i)).map Prod.fst

theorem givenFiles_cons_self (file : SourceFile) (i : Nat) (deliveries : List (SourceFile × Nat)) :
    givenFiles i ((file, i) :: deliveries) = file :: givenFiles i deliveries := by
  simp [givenFiles]

theorem givenFiles_cons_of_ne {i j : Nat} (h : j ≠ i) (file : SourceFile)
    (deliveries : List (SourceFile × Nat)) :
    givenFiles i ((file, j) :: deliveries) = givenFiles i deliveries := by
  simp [givenFiles, h]

/-- A position is given every file as often as it is listed. -/
theorem givenFiles_product (i : Nat) (files : List SourceFile) (targets : List Nat) :
    givenFiles i (files ×ˢ targets) = files.flatMap (List.replicate (targets.count i)) := by
  induction files with
  | nil => rfl
  | cons file files ih =>
    have hfirst : givenFiles i (targets.map fun j => (file, j)) =
        List.replicate (targets.count i) file := by
      rw [givenFiles, List.filter_map, List.map_map, List.count_eq_length_filter]
      exact List.map_const'
    rw [List.product_cons, List.flatMap_cons, ← ih, ← hfirst]
    simp only [givenFiles, List.filter_append, List.map_append]

end Execution

/-! ## One of several outputs -/

namespace Workspace

open Execution

variable {w : Workspace} {o : Output} {i : Nat} {file : SourceFile}

/-- The output at a position has taken a file. -/
def takes (w : Workspace) (d : SourceFile × Nat) : Workspace :=
  w.putDesk d.2 ((w.desk d.2).takes d.1)

theorem desk_eq (h : w.outputs[i]? = some o) : w.desk i = ⟨o, w.shown, w.storage⟩ := by
  rw [desk, h]
  rfl

theorem outputs_takes (w : Workspace) (d : SourceFile × Nat) (i : Nat) :
    (w.takes d).outputs[i]? =
      if d.2 = i then w.outputs[i]?.map (·.takes d.1) else w.outputs[i]? := by
  rw [takes, putDesk, List.getElem?_set]
  split
  · next hi =>
    subst hi
    split
    · next hlt =>
      rw [desk, Desk.takes, List.getElem?_eq_getElem hlt]
      rfl
    · next hlt =>
      rw [List.getElem?_eq_none (Nat.le_of_not_lt hlt)]
      rfl
  · rfl

theorem writeFile_eq_desk (hi : i < w.outputs.length) (file : SourceFile) :
    writeFile file (sink i) w = (writeFile file Desk.sink (w.desk i)).map (w.putDesk i) := by
  refine writeFile_within (fun d => ?_) (fun d d' => ?_) file Desk.sink
  · rw [desk, putDesk, List.getElem?_set_self hi]
    rfl
  · rw [putDesk, putDesk, putDesk, List.set_set]

theorem writeFile_of_fits (ho : w.outputs[i]? = some o) (hmem : o.InMemory) (h : o.Fits [file]) :
    writeFile file (sink i) w = { state := w.takes (file, i) } := by
  obtain ⟨hi, -⟩ := List.getElem?_eq_some_iff.mp ho
  have hdesk := desk_eq ho
  rw [writeFile_eq_desk hi, takes, hdesk, Desk.writeFile_of_fits hmem h]
  rfl

theorem writeFile_of_not_fits (ho : w.outputs[i]? = some o) (h : ¬ o.Fits [file]) :
    (writeFile file (sink i) w).failure? = some (.fileBuffer (.repeated file.name)) := by
  obtain ⟨hi, -⟩ := List.getElem?_eq_some_iff.mp ho
  rw [writeFile_eq_desk hi, desk_eq ho]
  exact Desk.writeFile_of_not_fits h

/-! ## Files one after the other -/

/-- There is an output in memory at a position. -/
def InMemory (w : Workspace) (i : Nat) : Prop := ∃ o, w.outputs[i]? = some o ∧ o.InMemory

theorem inMemory_takes (h : w.InMemory i) (d : SourceFile × Nat) : (w.takes d).InMemory i := by
  obtain ⟨o, ho, hmem⟩ := h
  rw [InMemory, outputs_takes, ho]
  split
  · exact ⟨o.takes d.1, rfl, Output.inMemory_takes hmem⟩
  · exact ⟨o, rfl, hmem⟩

/-- Every output takes the files that go to its position. -/
def Accepts (w : Workspace) (deliveries : List (SourceFile × Nat)) : Prop :=
  ∀ i (o : Output), w.outputs[i]? = some o → o.Fits (givenFiles i deliveries)

variable {deliveries : List (SourceFile × Nat)}

theorem accepts_nil (w : Workspace) : w.Accepts [] := by
  intro i o _
  cases o with
  | files b => exact ⟨.nil, by simp [givenFiles]⟩
  | _ => trivial

theorem accepts_cons (ho : w.outputs[i]? = some o) :
    w.Accepts ((file, i) :: deliveries) ↔
      o.Fits [file] ∧ (w.takes (file, i)).Accepts deliveries := by
  constructor
  · intro h
    have hself := h i o ho
    rw [givenFiles_cons_self, Output.fits_cons] at hself
    refine ⟨hself.1, fun j o' ho' => ?_⟩
    rw [outputs_takes] at ho'
    split at ho'
    · next hij =>
      obtain rfl : i = j := hij
      rw [ho] at ho'
      obtain rfl := Option.some.inj ho'
      exact hself.2
    · next hij =>
      have hother := h j o' ho'
      rwa [givenFiles_cons_of_ne hij] at hother
  · rintro ⟨hfile, h⟩ j o' ho'
    have hj := h j
    rw [outputs_takes, ho'] at hj
    by_cases hij : i = j
    · subst hij
      obtain rfl := Option.some.inj (ho.symm.trans ho')
      rw [if_pos rfl] at hj
      rw [givenFiles_cons_self, Output.fits_cons]
      exact ⟨hfile, hj _ rfl⟩
    · rw [if_neg hij] at hj
      rw [givenFiles_cons_of_ne hij]
      exact hj o' rfl

/-- Files that fit go to their outputs one after the other. -/
theorem performAll_of_accepts (hmem : ∀ d ∈ deliveries, w.InMemory d.2)
    (h : w.Accepts deliveries) :
    performAll sink (callsOf deliveries) w = { state := deliveries.foldl takes w } := by
  induction deliveries generalizing w with
  | nil => rfl
  | cons d deliveries ih =>
    obtain ⟨⟨o, ho, hmemory⟩, hrest⟩ := List.forall_mem_cons.mp hmem
    obtain ⟨hfits, h⟩ := (accepts_cons ho).mp h
    rw [performAll_callsOf_cons, writeFile_of_fits ho hmemory hfits, Outcome.andThen_of_success,
      ih (fun d' hd' => inMemory_takes (hrest d' hd') d) h, List.foldl_cons]

/-- Writing does not succeed unless all files fit. -/
theorem accepts_of_performAll (hmem : ∀ d ∈ deliveries, w.InMemory d.2)
    (h : (performAll sink (callsOf deliveries) w).failure? = none) : w.Accepts deliveries := by
  induction deliveries generalizing w with
  | nil => exact accepts_nil w
  | cons d deliveries ih =>
    obtain ⟨⟨o, ho, hmemory⟩, hrest⟩ := List.forall_mem_cons.mp hmem
    rw [performAll_callsOf_cons] at h
    rw [accepts_cons ho]
    by_cases hfits : o.Fits [d.1]
    · rw [writeFile_of_fits ho hmemory hfits, Outcome.andThen_of_success] at h
      exact ⟨hfits, ih (fun d' hd' => inMemory_takes (hrest d' hd') d) h⟩
    · have hfailure := writeFile_of_not_fits ho hfits
      rcases hwrite : writeFile d.1 (sink d.2) w with ⟨w', _ | fault⟩
      · rw [hwrite] at hfailure
        cases hfailure
      · rw [hwrite] at h
        cases h

/-- The output at a position holds the files that went there. -/
theorem outputs_takesAll (w : Workspace) (deliveries : List (SourceFile × Nat)) (i : Nat) :
    (deliveries.foldl takes w).outputs[i]? =
      w.outputs[i]?.map (·.takesAll (givenFiles i deliveries)) := by
  induction deliveries generalizing w with
  | nil =>
    have hnone : (fun o : Output => o.takesAll (givenFiles i [])) = id := rfl
    rw [hnone, Option.map_id]
    rfl
  | cons d deliveries ih =>
    obtain ⟨file, j⟩ := d
    rw [List.foldl_cons, ih, outputs_takes]
    by_cases hj : j = i
    · subst hj
      rw [if_pos rfl, Option.map_map, givenFiles_cons_self]
      rfl
    · rw [if_neg hj, givenFiles_cons_of_ne hj]

/-- What the console shows of a file that goes to a position. -/
def printed (w : Workspace) (d : SourceFile × Nat) : String := (w.desk d.2).output.printed d.1

theorem printed_takes (w : Workspace) (d d' : SourceFile × Nat) :
    (w.takes d).printed d' = w.printed d' := by
  rw [printed, printed, desk, desk, outputs_takes]
  split
  · cases w.outputs[d'.2]? with
    | none => rfl
    | some o => exact Output.printed_takes d'.1
  · rfl

/-- The console shows files in the order in which they are written. -/
theorem shown_takesAll (w : Workspace) (deliveries : List (SourceFile × Nat)) :
    (deliveries.foldl takes w).shown.text =
      w.shown.text ++ String.join (deliveries.map w.printed) := by
  induction deliveries generalizing w with
  | nil => simp
  | cons d deliveries ih =>
    have hshown : (w.takes d).shown.text = w.shown.text ++ w.printed d := rfl
    have hsame : (w.takes d).printed = w.printed := funext (printed_takes w d)
    rw [List.foldl_cons, ih, hshown, hsame, List.map_cons, String.join_cons, String.append_assoc]

theorem storage_takesAll (w : Workspace) (deliveries : List (SourceFile × Nat)) :
    (deliveries.foldl takes w).storage = w.storage := by
  induction deliveries generalizing w with
  | nil => rfl
  | cons d deliveries ih => exact ih (w.takes d)

end Workspace

end ApiClient
