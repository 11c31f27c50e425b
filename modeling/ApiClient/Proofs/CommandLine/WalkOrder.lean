import ApiClient.CommandLine
import ApiClient.Proofs.Glob.Walking
import ApiClient.Proofs.Output.Reordering

/-!
# Runs do not see the order of folders

* `config_eq`, `sources_eq`: a run reads the same configuration and the same sources, in whatever
  order folders are read;
* `generate_alike`, `run_alike`: it prints and writes the same then;
* `walk_order_unseen`: all of this, from the files that a walk selects to the whole run.
-/

namespace ApiClient.CommandLine

open Storage (SameEntries)

variable {t t' : Storage}

/-! ## What a run reads -/

section

variable (h : SameEntries t t')
include h

theorem readDraft_eq (path : String) : readDraft t path = readDraft t' path := by
  rw [readDraft, readDraft, h.readBytes_eq]

theorem config_eq (o : Options) : config t o = config t' o := by
  simp only [config, readDraft_eq h]

theorem sources_eq (globs : List String) : sources t globs = sources t' globs := by
  induction globs with
  | nil => rfl
  | cons glob globs ih => rw [sources, sources, Glob.load_eq h, ih]

/-! ## What a run writes -/

theorem output_eq (o : Options) :
    (output t o).1 = (output t' o).1 ∧ SameEntries (output t o).2 (output t' o).2 := by
  rw [output, output]
  split
  · exact ⟨rfl, h⟩
  · obtain ⟨hfolder, hstorage⟩ := Folder.claim_eq h (o.outputRoot?.getD defaultOutputRoot)
    exact ⟨congrArg (fun folder => (folder.map Output.folder).mapError Failure.folder) hfolder,
      hstorage⟩

theorem generate_alike (o : Options) :
    Outcome.Alike Workspace.Reordered (generate t o) (generate t' o) := by
  rw [generate, generate, config_eq h, sources_eq h]
  split
  · exact ⟨rfl, rfl, rfl, h⟩
  · obtain ⟨houtput, hstorage⟩ := output_eq h o
    generalize output t o = x, output t' o = y at houtput hstorage
    obtain ⟨output, s⟩ := x
    obtain ⟨_, s'⟩ := y
    obtain rfl : output = _ := houtput
    cases output with
    | error failure => exact ⟨rfl, rfl, rfl, hstorage⟩
    | ok output => exact Workspace.execute_alike _ _ _ ⟨rfl, rfl, hstorage⟩

/-- A run prints the same, has the same exit code and leaves the same files. -/
theorem run_alike (arguments : List String) :
    (run t arguments).exitCode = (run t' arguments).exitCode ∧
      (run t arguments).out = (run t' arguments).out ∧
      (run t arguments).err = (run t' arguments).err ∧
      SameEntries (run t arguments).storage (run t' arguments).storage := by
  rw [run, run]
  split
  · exact ⟨rfl, rfl, rfl, h⟩
  · exact ⟨rfl, rfl, rfl, h⟩
  · exact ⟨rfl, rfl, rfl, h⟩
  · next options _ =>
    have hdone := generate_alike h options
    dsimp only
    rw [hdone.failure?, hdone.state.shown]
    exact ⟨rfl, rfl, rfl, hdone.state.storage⟩

end

/-! ## The order of folders -/

/-- What a walk selects depends on what it meets and not on the order: all files that are accepted,
in the order of their locations, each once. So a glob names the same files, all sources have the
same endpoints in the same order, and a run prints and writes the same, in whatever order folders
are read. -/
theorem walk_order_unseen (h : SameEntries t t') :
    (∀ accept root entries entries', entries.Perm entries' → (entries.map (·.1)).Nodup →
      Glob.select accept root entries = Glob.select accept root entries' ∧
        (Glob.select accept root entries).Pairwise Location.Precedes ∧
        ∀ place, place ∈ Glob.select accept root entries ↔ ∃ entry, (place, entry) ∈ entries ∧
          entry ≠ .folder ∧ accept (Glob.pathBelow root place) = true) ∧
      (∀ root glob, Glob.walk t root glob = Glob.walk t' root glob) ∧
      (∀ root glob places, Glob.walk t root glob = .ok places →
        ∃ pieces place, Glob.Pattern.compile (Path.join root glob) = .ok pieces ∧
          t.locate root = .ok place ∧ places.Pairwise Location.Precedes ∧
          ∀ found, found ∈ places ↔ ∃ entry, (found, entry) ∈ Glob.met t place ∧
            entry ≠ .folder ∧ Glob.accepts pieces (Glob.pathBelow root found) = true) ∧
      (∀ globs, sources t globs = sources t' globs) ∧
      ∀ arguments, (run t arguments).exitCode = (run t' arguments).exitCode ∧
        (run t arguments).out = (run t' arguments).out ∧
        (run t arguments).err = (run t' arguments).err ∧
        (∀ path, (run t arguments).storage.readText path =
          (run t' arguments).storage.readText path) ∧
        SameEntries (run t arguments).storage (run t' arguments).storage := by
  refine ⟨fun accept root entries entries' hperm hnodup => ?_, Glob.walk_eq h,
    fun root glob places => Glob.walk_lists h.distinct, sources_eq h, fun arguments => ?_⟩
  · exact ⟨Glob.select_eq_of_perm hperm, Glob.pairwise_select hnodup,
      fun place => Glob.mem_select_iff⟩
  · obtain ⟨hcode, hout, herr, hstorage⟩ := run_alike h arguments
    exact ⟨hcode, hout, herr, hstorage.readText_eq, hstorage⟩

/-- A file inside of a folder comes before its neighbours, though a slash comes behind a blank and a
hyphen. -/
theorem walk_order_unseen_neighbours :
    let t : Storage := ⟨[(["r"], .folder), (["r", "a-b"], .file []), (["r", "a"], .folder),
      (["r", "a", "b"], .file []), (["r", "a b"], .file [])], ["r"]⟩
    let t' : Storage := ⟨[(["r"], .folder), (["r", "a"], .folder), (["r", "a", "b"], .file []),
      (["r", "a b"], .file []), (["r", "a-b"], .file [])], ["r"]⟩
    SameEntries t t' ∧ Glob.walk t "/r" "*b" = .ok [["a", "b"], ["a b"], ["a-b"]] ∧
      Glob.walk t' "/r" "*b" = .ok [["a", "b"], ["a b"], ["a-b"]] ∧
      [["a", "b"], ["a b"], ["a-b"]].Pairwise Location.Precedes ∧
      (run t ["-i", "*b", "-r", "xml"]).err = (run t' ["-i", "*b", "-r", "xml"]).err := by
  intro t t'
  have h : SameEntries t t' := ⟨by decide, by decide, rfl⟩
  have hpieces : Glob.Pattern.compile (Path.join "/r" "*b") =
      .ok [.literal '/', .literal 'r', .literal '/', .many, .literal 'b'] := rfl
  have hplace : t'.locate "/r" = .ok ["r"] := by decide +kernel
  have hchosen : Glob.chosen (Glob.accepts [.literal '/', .literal 'r', .literal '/', .many,
      .literal 'b']) "/r" (Glob.met t' ["r"]) = [["a", "b"], ["a b"], ["a-b"]] := by decide +kernel
  -- the second storage has its files in the right order
  have hwalk : Glob.walk t' "/r" "*b" = .ok [["a", "b"], ["a b"], ["a-b"]] := by
    rw [Glob.walk, hpieces, hplace]
    refine congrArg Except.ok ?_
    rw [Glob.select_eq, hchosen]
    exact List.mergeSort_of_pairwise (by decide)
  obtain ⟨-, hsame, hlists, -, hrun⟩ := walk_order_unseen h
  have hwalk' := (hsame "/r" "*b").trans hwalk
  obtain ⟨-, -, -, -, hsorted, -⟩ := hlists _ _ _ hwalk'
  exact ⟨h, hwalk', hwalk, hsorted, (hrun _).2.2.1⟩

end ApiClient.CommandLine
