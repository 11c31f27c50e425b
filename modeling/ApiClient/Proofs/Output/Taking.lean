import Mathlib.Tactic.Common
import ApiClient.Output

/-!
# Files that an output in memory takes

* `FileBuffer.takes`, `Output.takes`: what is there behind a file;
* `FileBuffer.Fits`, `Output.Fits`: whether the names of files are new to an output;
* `Output.printed`: what the console shows of a file;
* `fits_cons`, `takesAll_buffer`, `files_takesAll`: several files one after the other;
* `Desk.writeFile_of_fits`, `Desk.writeFile_of_not_fits`: writing a file is taking it, if it fits.
-/

namespace ApiClient

open Execution

variable {file : SourceFile} {files : List SourceFile}

theorem Buffer.append_empty (b : Buffer) : b.append "" = b := by
  rw [append, String.append_empty]

/-! ## Files and their texts -/

namespace FileBuffer

variable {b : FileBuffer}

/-- The buffer with a file behind all others. -/
def takes (b : FileBuffer) (file : SourceFile) : FileBuffer :=
  { complete := b.files, current? := some (file.name, file.contents) }

@[simp] theorem files_takes : (b.takes file).files = b.files ++ [(file.name, file.contents)] := rfl

@[simp] theorem names_takes : (b.takes file).names = b.names ++ [file.name] := by
  rw [names, files_takes, List.map_append]
  rfl

/-- The names of files are different from each other and from those in a buffer. -/
def Fits (b : FileBuffer) (files : List SourceFile) : Prop :=
  (files.map SourceFile.name).Nodup ∧ ∀ file ∈ files, file.name ∉ b.names

theorem fits_singleton : b.Fits [file] ↔ file.name ∉ b.names := by
  simp [Fits]

theorem fits_cons : b.Fits (file :: files) ↔ b.Fits [file] ∧ (b.takes file).Fits files := by
  rw [fits_singleton]
  simp only [Fits, names_takes, List.map_cons, List.nodup_cons, List.mem_map, List.mem_append,
    List.mem_singleton, List.forall_mem_cons, not_exists, not_and, not_or]
  constructor
  · rintro ⟨⟨hother, hnodup⟩, hfile, hfiles⟩
    exact ⟨hfile, hnodup, fun f hf => ⟨hfiles f hf, hother f hf⟩⟩
  · rintro ⟨hfile, hnodup, hfiles⟩
    exact ⟨⟨fun f hf => (hfiles f hf).2, hnodup⟩, hfile, fun f hf => (hfiles f hf).1⟩

theorem writeFile_of_fits (h : b.Fits [file]) :
    writeFile file sink b = { state := b.takes file } := by
  have hnew : ¬ b.names.contains file.name = true := by simpa using fits_singleton.mp h
  have hbegin : sink.beginFile file.name b =
      { state := { complete := b.files, current? := some (file.name, "") } } := if_neg hnew
  have hwrite : sink.write file.contents { complete := b.files, current? := some (file.name, "") } =
      { state := { complete := b.files, current? := some (file.name, "" ++ file.contents) } } := rfl
  rw [writeFile, hbegin, Outcome.andThen_of_success, hwrite, String.empty_append, takes]

theorem writeFile_of_not_fits (h : ¬ b.Fits [file]) :
    writeFile file sink b = { state := b, failure? := some (.repeated file.name) } := by
  have hold : b.names.contains file.name = true := by
    simpa using not_not.mp (mt fits_singleton.mpr h)
  have hbegin : sink.beginFile file.name b =
      { state := b, failure? := some (.repeated file.name) } := if_pos hold
  rw [writeFile, hbegin, Outcome.andThen_of_failure]

end FileBuffer

/-! ## Any output in memory -/

namespace Output

variable {o : Output}

/-- Everything that is written to an output stays in memory. -/
def InMemory : Output → Prop
  | .folder _ => False
  | _ => True

/-- The output with a file behind everything that it holds. The console holds nothing. -/
def takes (o : Output) (file : SourceFile) : Output :=
  match o with
  | .buffer b => .buffer (b.append file.contents)
  | .files b => .files (b.takes file)
  | .console header => .console header
  | .folder content => .folder content

/-- The output with files behind everything that it holds. -/
def takesAll (o : Output) (files : List SourceFile) : Output := files.foldl takes o

/-- Whether an output takes files, one after the other. -/
def Fits (o : Output) (files : List SourceFile) : Prop :=
  match o with
  | .files b => b.Fits files
  | _ => True

/-- What the console shows of a file that goes to an output. -/
def printed (o : Output) (file : SourceFile) : String :=
  match o with
  | .console header => header ++ " " ++ file.name ++ "\n" ++ file.contents
  | _ => ""

theorem fits_cons : o.Fits (file :: files) ↔ o.Fits [file] ∧ (o.takes file).Fits files := by
  cases o with
  | files b => exact FileBuffer.fits_cons
  | _ => exact (and_self_iff (a := True)).symm

theorem inMemory_takes (h : o.InMemory) : (o.takes file).InMemory := by
  cases o <;> exact h

/-- An output shows a file in the same way, whatever it has taken before. -/
theorem printed_takes (file' : SourceFile) : (o.takes file).printed file' = o.printed file' := by
  cases o <;> rfl

theorem takesAll_buffer (b : Buffer) (files : List SourceFile) :
    (Output.buffer b).takesAll files =
      .buffer { text := b.text ++ String.join (files.map SourceFile.contents) } := by
  induction files generalizing b with
  | nil => simp [takesAll]
  | cons file files ih =>
    rw [takesAll, List.foldl_cons, ← takesAll, takes, ih, Buffer.append, List.map_cons,
      String.join_cons, String.append_assoc]

theorem takesAll_console (header : String) (files : List SourceFile) :
    (Output.console header).takesAll files = .console header := by
  induction files with
  | nil => rfl
  | cons file files ih => exact ih

/-- Files with their texts are put behind the others, which stay as they are. -/
theorem files_takesAll (b : FileBuffer) (files : List SourceFile) :
    ∃ b', (Output.files b).takesAll files = .files b' ∧
      b'.files = b.files ++ files.map fun file => (file.name, file.contents) := by
  induction files generalizing b with
  | nil => exact ⟨b, rfl, (List.append_nil _).symm⟩
  | cons file files ih =>
    obtain ⟨b', htakes, hfiles⟩ := ih (b.takes file)
    refine ⟨b', htakes, ?_⟩
    rw [hfiles, FileBuffer.files_takes, List.append_assoc]
    rfl

end Output

/-! ## An output with the console -/

namespace Desk

/-- The output has taken a file, and the console shows it if it has to. -/
def takes (d : Desk) (file : SourceFile) : Desk :=
  { d with output := d.output.takes file, shown := d.shown.append (d.output.printed file) }

theorem writeFile_files (file : SourceFile) (b : FileBuffer) (shown : Buffer) (storage : Storage) :
    writeFile file sink ⟨.files b, shown, storage⟩ =
      ((writeFile file FileBuffer.sink b).map (⟨.files ·, shown, storage⟩)).mapFailure
        .fileBuffer := by
  have hbegin : sink.beginFile file.name ⟨.files b, shown, storage⟩ =
      ((FileBuffer.sink.beginFile file.name b).map (⟨.files ·, shown, storage⟩)).mapFailure
        .fileBuffer := rfl
  rw [writeFile, writeFile, hbegin]
  obtain ⟨b', _ | fault⟩ := FileBuffer.sink.beginFile file.name b <;> rfl

variable {d : Desk}

theorem writeFile_of_fits (hmem : d.output.InMemory) (h : d.output.Fits [file]) :
    writeFile file sink d = { state := d.takes file } := by
  obtain ⟨output, shown, storage⟩ := d
  cases output with
  | buffer b =>
    have hshown : shown.append (Output.printed (.buffer b) file) = shown := shown.append_empty
    rw [takes, hshown]
    rfl
  | files b =>
    have hshown : shown.append (Output.printed (.files b) file) = shown := shown.append_empty
    rw [writeFile_files, FileBuffer.writeFile_of_fits h, takes, hshown]
    rfl
  | console header =>
    have hshown : shown.append (Output.printed (.console header) file) =
        (shown.append (header ++ " " ++ file.name ++ "\n")).append file.contents := by
      rw [Buffer.append, Output.printed, ← String.append_assoc]
      rfl
    rw [takes, hshown]
    rfl
  | folder content => exact hmem.elim

theorem writeFile_of_not_fits (h : ¬ d.output.Fits [file]) :
    (writeFile file sink d).failure? = some (.fileBuffer (.repeated file.name)) := by
  obtain ⟨output, shown, storage⟩ := d
  cases output with
  | files b =>
    rw [writeFile_files, FileBuffer.writeFile_of_not_fits h]
    rfl
  | _ => exact absurd trivial h

end Desk

end ApiClient
