import ApiClient.Output
import ApiClient.Proofs.Storage

/-!
# Outputs over storages with their entries in another order

* `Sink.Respects`: a sink that does not tell related states apart;
* `Respects.writeAll`, `Respects.execute`: executions do not tell them apart either;
* `Folder.claim_eq`, `Folder.respects`, `Workspace.respects`: neither folders nor any other outputs
  see the order of the entries of a storage.
-/

namespace ApiClient

/-! ## Sinks that respect a relation -/

namespace Sink

variable {ε σ : Type} {R : σ → σ → Prop} {sinks : List (Sink ε σ)} {sink : Sink ε σ} {s t : σ}

/-- A sink that fails in the same way for related states, and leaves related states. -/
def Respects (R : σ → σ → Prop) (sink : Sink ε σ) : Prop :=
  ∀ step s t, R s t → Outcome.Alike R (sink.perform step s) (sink.perform step t)

namespace Respects

open Execution

theorem writeFile (h : Respects R sink) (file : SourceFile) (hst : R s t) :
    Outcome.Alike R (Execution.writeFile file sink s) (Execution.writeFile file sink t) :=
  (h (.beginFile file.name) s t hst).andThen fun s t hst => h (.write file.contents) s t hst

variable (h : ∀ sink ∈ sinks, Respects R sink)
include h

theorem writeToEach (file : SourceFile) (hst : R s t) :
    Outcome.Alike R (Execution.writeToEach file sinks s) (Execution.writeToEach file sinks t) := by
  induction sinks generalizing s t with
  | nil => exact ⟨rfl, hst⟩
  | cons sink sinks ih =>
    rw [List.forall_mem_cons] at h
    exact (h.1.writeFile file hst).andThen fun s t hst => ih h.2 hst

theorem writeAll (files : List SourceFile) (hst : R s t) :
    Outcome.Alike R (Execution.writeAll sinks files s) (Execution.writeAll sinks files t) := by
  induction files generalizing s t with
  | nil => exact ⟨rfl, hst⟩
  | cons file files ih => exact (writeToEach h file hst).andThen fun s t hst => ih hst

/-- An execution does not tell related states apart. -/
theorem execute (config : Config) (sources : List Source) (hst : R s t) :
    Outcome.Alike R (ApiClient.execute config sources sinks s)
      (ApiClient.execute config sources sinks t) := by
  rw [ApiClient.execute, ApiClient.execute]
  split
  · exact ⟨rfl, hst⟩
  · split
    · exact ⟨rfl, hst⟩
    · split
      · exact ⟨rfl, hst⟩
      · exact (writeAll h _ hst).mapFailure _

end Respects

end Sink

open Storage (SameEntries)

/-! ## Folders -/

namespace Folder

variable {t t' : Storage}

theorem claim_eq (h : SameEntries t t') (root : String) :
    (claim t root).1 = (claim t' root).1 ∧ SameEntries (claim t root).2 (claim t' root).2 := by
  have hmade := (h.createFolders root).mapFailure (Fault.root root)
  rw [claim, claim]
  generalize (t.createFolders root).mapFailure _ = made,
    (t'.createFolders root).mapFailure _ = made' at hmade
  rw [hmade.failure?, hmade.state.locate_eq]
  split
  · exact ⟨rfl, hmade.state⟩
  · exact ⟨rfl, hmade.state⟩
  · rw [(hmade.state.below_perm _).isEmpty_eq]
    split <;> exact ⟨rfl, hmade.state⟩

/-- The same folder over storages with their entries in another order. -/
structure Reordered (s s' : Folder × Storage) : Prop where
  folder : s.1 = s'.1
  storage : SameEntries s.2 s'.2

theorem createAround_alike (h : SameEntries t t') (path : String) :
    Outcome.Alike SameEntries (createAround t path) (createAround t' path) := by
  rw [createAround, createAround]
  split
  · exact h.createFolders _
  · exact ⟨rfl, h⟩

theorem createFile_alike (name : String) (f : Folder) (h : SameEntries t t') :
    Outcome.Alike Reordered (createFile name f t) (createFile name f t') := by
  have haround : Outcome.Alike Reordered
      (((createAround t (Path.join f.root name)).mapFailure Fault.folder).map (f, ·))
      (((createAround t' (Path.join f.root name)).mapFailure Fault.folder).map (f, ·)) :=
    ((createAround_alike h _).mapFailure _).map fun s s' hs => ⟨rfl, hs⟩
  unfold createFile
  refine haround.andThen ?_
  rintro ⟨f', s⟩ ⟨_, s'⟩ ⟨rfl, hs⟩
  have hmade := hs.createFile (Path.join f.root name)
  dsimp only
  generalize s.createFile _ = x, s'.createFile _ = y at hmade
  cases hmade with
  | error fault => exact ⟨rfl, rfl, hs⟩
  | ok hmade => exact ⟨rfl, congrArg (Folder.mk f'.root ∘ some) hmade.1, hmade.2⟩

theorem write_alike (data : String) (f : Folder) (h : SameEntries t t') :
    Outcome.Alike Reordered (write data f t) (write data f t') := by
  rw [write, write]
  split
  · exact ⟨rfl, rfl, h⟩
  · exact ⟨rfl, rfl, h.append _ data⟩

/-- A folder does not see the order of the entries around it. -/
theorem respects : sink.Respects Reordered := by
  rintro step ⟨f, t⟩ ⟨_, t'⟩ ⟨rfl, h⟩
  cases step <;> dsimp only [Sink.perform, sink]
  case beginFile name => exact createFile_alike name f h
  case write data => exact write_alike data f h
  case writeChar c => exact write_alike _ f h
  case newline => exact write_alike "\n" f h

end Folder

/-! ## All outputs -/

/-- The same output over storages with their entries in another order. -/
structure Desk.Reordered (d d' : Desk) : Prop where
  output : d.output = d'.output
  shown : d.shown = d'.shown
  storage : SameEntries d.storage d'.storage

/-- What an operation does to an output depends on the order of entries only as far as what it does
to a folder does. -/
theorem Desk.apply_alike (operation : ∀ {ε σ : Type}, Sink ε σ → σ → Outcome ε σ)
    (hfolder : ∀ s s', Folder.Reordered s s' →
      Outcome.Alike Folder.Reordered (operation Folder.sink s) (operation Folder.sink s'))
    {d d' : Desk} (h : d.Reordered d') :
    Outcome.Alike Desk.Reordered (Desk.apply operation d) (Desk.apply operation d') := by
  obtain ⟨output, shown, t⟩ := d
  obtain ⟨_, _, t'⟩ := d'
  obtain ⟨rfl, rfl, h⟩ := h
  cases output with
  | buffer content | files content | console header => exact ⟨rfl, rfl, rfl, h⟩
  | folder content =>
    have hwritten := hfolder (content, t) (content, t') ⟨rfl, h⟩
    have hput : ∀ s s' : Folder × Storage, Folder.Reordered s s' →
        Desk.Reordered ⟨.folder s.1, shown, s.2⟩ ⟨.folder s'.1, shown, s'.2⟩ := fun s s' hs =>
      ⟨congrArg Output.folder hs.folder, rfl, hs.storage⟩
    exact (hwritten.map hput).mapFailure Failure.folder

theorem Desk.respects : Desk.sink.Respects Desk.Reordered := by
  intro step d d' h
  cases step with
  | beginFile name =>
    exact Desk.apply_alike (fun sink => sink.beginFile name) (Folder.respects (.beginFile name)) h
  | write data =>
    exact Desk.apply_alike (fun sink => sink.write data) (Folder.respects (.write data)) h
  | writeChar c =>
    exact Desk.apply_alike (fun sink => sink.writeChar c) (Folder.respects (.writeChar c)) h
  | newline => exact Desk.apply_alike (fun sink => sink.newline) (Folder.respects .newline) h

/-- The same outputs over storages with their entries in another order. -/
structure Workspace.Reordered (w w' : Workspace) : Prop where
  outputs : w.outputs = w'.outputs
  shown : w.shown = w'.shown
  storage : SameEntries w.storage w'.storage

/-- No output sees the order of the entries of the storage. -/
theorem Workspace.respects (index : Nat) : (Workspace.sink index).Respects Workspace.Reordered := by
  rintro step ⟨outputs, shown, t⟩ ⟨_, _, t'⟩ ⟨rfl, rfl, h⟩
  have hdesk := Desk.respects step (Workspace.desk index ⟨outputs, shown, t⟩)
    (Workspace.desk index ⟨outputs, shown, t'⟩) ⟨rfl, rfl, h⟩
  have hput : ∀ d d' : Desk, d.Reordered d' → Workspace.Reordered
      (Workspace.putDesk index ⟨outputs, shown, t⟩ d)
      (Workspace.putDesk index ⟨outputs, shown, t'⟩ d') := fun d d' hd =>
    ⟨congrArg (outputs.set index) hd.output, hd.shown, hd.storage⟩
  cases step <;> exact hdesk.map hput

/-- An execution writes the same to all outputs, whatever the order of entries is. -/
theorem Workspace.execute_alike (config : Config) (sources : List Source) (targets : List Nat)
    {w w' : Workspace} (h : w.Reordered w') :
    Outcome.Alike Workspace.Reordered (Workspace.execute config sources targets w)
      (Workspace.execute config sources targets w') := by
  have hsinks : ∀ sink ∈ targets.map Workspace.sink, sink.Respects Workspace.Reordered :=
    List.forall_mem_map.mpr fun index _ => Workspace.respects index
  exact (Sink.Respects.execute hsinks config sources h).mapFailure _

end ApiClient
