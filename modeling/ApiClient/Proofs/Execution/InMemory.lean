import ApiClient.Proofs.Execution.Deliveries
import ApiClient.Proofs.Generation.Files

/-!
# Executions that stay in memory

* `fits_replicate`, `accepts_product_iff`: when outputs take all files of an execution;
* `execute_eq_performAll`: an execution as a list of files with the positions they go to;
* `Delivered`, `delivered_takesAll`: what all outputs hold behind an execution;
* `execute_delivers`: when an execution succeeds, and that everything is delivered then.
-/

namespace ApiClient

/-! ## Joined texts -/

namespace Text

variable {α : Type} {l : List α}

theorem join_flatMap (f : α → List String) (l : List α) :
    String.join (l.flatMap f) = String.join (l.map fun a => String.join (f a)) := by
  induction l with
  | nil => rfl
  | cons a l ih => rw [List.flatMap_cons, String.join_append, ih, List.map_cons, String.join_cons]

theorem join_map_eq_empty {f : α → String} (h : ∀ a ∈ l, f a = "") :
    String.join (l.map f) = "" := by
  induction l with
  | nil => rfl
  | cons a l ih =>
    obtain ⟨ha, hrest⟩ := List.forall_mem_cons.mp h
    rw [List.map_cons, String.join_cons, ha, ih hrest, String.empty_append]

/-- Joining leaves the one text that is not empty. -/
theorem join_map_of_count [DecidableEq α] {f : α → String} {a : α} (h : l.count a = 1)
    (hother : ∀ b ∈ l, b ≠ a → f b = "") : String.join (l.map f) = f a := by
  induction l with
  | nil => exact absurd h (by simp)
  | cons b l ih =>
    obtain ⟨hb, hrest⟩ := List.forall_mem_cons.mp hother
    rw [List.map_cons, String.join_cons]
    by_cases hba : b = a
    · subst hba
      rw [List.count_cons_self] at h
      have hmem : b ∉ l := List.count_eq_zero.mp (by omega)
      have hempty : ∀ c ∈ l, f c = "" := fun c hc => hrest c hc fun hcb => hmem (hcb ▸ hc)
      rw [join_map_eq_empty hempty, String.append_empty]
    · rw [List.count_cons_of_ne hba] at h
      rw [hb hba, ih h hrest, String.empty_append]

end Text

/-! ## Files that are new -/

namespace FileBuffer

variable {b : FileBuffer} {files : List SourceFile}

/-- Files fit only once, and only if there is none of their names before. -/
theorem fits_replicate (hnodup : (files.map SourceFile.name).Nodup) (hne : files ≠ []) (m : Nat) :
    b.Fits (files.flatMap (List.replicate m)) ↔
      m = 0 ∨ m = 1 ∧ ∀ file ∈ files, file.name ∉ b.names := by
  match m with
  | 0 =>
    have hnil : files.flatMap (List.replicate 0) = [] := by simp
    rw [hnil]
    simp [Fits]
  | 1 =>
    have hself : files.flatMap (List.replicate 1) = files := List.flatMap_singleton' files
    rw [hself]
    simp [Fits, hnodup]
  | m + 2 =>
    obtain ⟨file, rest, rfl⟩ := List.exists_cons_of_ne_nil hne
    simp [Fits, List.replicate_succ]

end FileBuffer

namespace Workspace

open Execution

variable {w : Workspace} {i : Nat} {file : SourceFile} {targets : List Nat}
  {files : List SourceFile}

theorem accepts_product_iff (hnodup : (files.map SourceFile.name).Nodup) (hne : files ≠ []) :
    w.Accepts (files ×ˢ targets) ↔
      ∀ i ∈ targets, ∀ b, w.outputs[i]? = some (.files b) →
        targets.count i ≤ 1 ∧ ∀ file ∈ files, file.name ∉ b.names := by
  constructor
  · intro h i hi b hb
    have hfits : b.Fits (givenFiles i (files ×ˢ targets)) := h i _ hb
    have hpos := List.count_pos_iff.mpr hi
    rw [givenFiles_product, FileBuffer.fits_replicate hnodup hne] at hfits
    rcases hfits with hzero | ⟨hone, hnew⟩
    · omega
    · exact ⟨Nat.le_of_eq hone, hnew⟩
  · intro h i o ho
    cases o with
    | files b =>
      have hfits : b.Fits (files.flatMap (List.replicate (targets.count i))) := by
        rw [FileBuffer.fits_replicate hnodup hne]
        by_cases hi : i ∈ targets
        · obtain ⟨honce, hnew⟩ := h i hi b ho
          have hpos := List.count_pos_iff.mpr hi
          exact .inr ⟨by omega, hnew⟩
        · exact .inl (List.count_eq_zero.mpr hi)
      rw [← givenFiles_product] at hfits
      exact hfits
    | _ => trivial

/-! ## Executions -/

/-- An execution that has something to write makes the calls by which files go to positions. -/
theorem execute_eq_performAll {config : Config} {sources : List Source} {g : Generation}
    (hsources : sources ≠ []) (htargets : targets ≠ [])
    (hg : Generation.prepare config sources = .ok g) (w : Workspace) :
    execute config sources targets w = performAll sink (callsOf (g.files ×ˢ targets)) w := by
  have hsinks : targets.map sink ≠ [] := by simpa using htargets
  rw [execute, execute_of_ok hsources hsinks hg, writeAll_eq, schedule_eq_callsOf]
  rcases performAll sink (callsOf (g.files ×ˢ targets)) w with ⟨w', _ | fault⟩ <;> rfl

/-- What the outputs in memory hold, and what is shown, after files went to the outputs at the
positions in a list. -/
structure Delivered (targets : List Nat) (files : List SourceFile) (w w' : Workspace) : Prop where
  /-- All files are behind those that were there before. -/
  stored : ∀ {i : Nat} {b : FileBuffer}, i ∈ targets → w.outputs[i]? = some (.files b) →
    ∃ b', w'.outputs[i]? = some (.files b') ∧
      b'.files = b.files ++ files.map fun file => (file.name, file.contents)
  /-- Every file is there as often as the output is listed. -/
  appended : ∀ {i : Nat} {b : Buffer}, w.outputs[i]? = some (.buffer b) →
    w'.outputs[i]? = some (.buffer { text := b.text ++ String.join (files.flatMap fun file =>
      List.replicate (targets.count i) file.contents) })
  /-- A console holds nothing itself. -/
  kept : ∀ {i : Nat} {header : String}, w.outputs[i]? = some (.console header) →
    w'.outputs[i]? = some (.console header)
  /-- Every file is shown for every console in the list. -/
  shown : w'.shown.text = w.shown.text ++
    String.join (files.flatMap fun file => targets.map fun i => w.printed (file, i))
  /-- The only console in the list, listed once, shows what a buffer of files stores. -/
  shownOnce : ∀ {i : Nat} {header : String}, w.outputs[i]? = some (.console header) →
    targets.count i = 1 →
    (∀ j ∈ targets, j ≠ i → ∀ other, w.outputs[j]? ≠ some (.console other)) →
    w'.shown.text = w.shown.text ++ String.join (files.map fun file =>
      header ++ " " ++ file.name ++ "\n" ++ file.contents)
  unlisted : ∀ {i : Nat}, i ∉ targets → w'.outputs[i]? = w.outputs[i]?
  storage : w'.storage = w.storage

theorem printed_eq_empty (h : ∀ header, w.outputs[i]? ≠ some (.console header)) :
    w.printed (file, i) = "" := by
  rw [printed, desk]
  dsimp only
  cases ho : w.outputs[i]? with
  | none => rfl
  | some o =>
    cases o with
    | console header => exact absurd ho (h header)
    | _ => rfl

theorem delivered_takesAll (w : Workspace) (targets : List Nat) (files : List SourceFile)
    (honce : ∀ i ∈ targets, ∀ b, w.outputs[i]? = some (.files b) → targets.count i ≤ 1) :
    Delivered targets files w ((files ×ˢ targets).foldl takes w) := by
  have houtputs : ∀ i, ((files ×ˢ targets).foldl takes w).outputs[i]? =
      w.outputs[i]?.map fun o : Output =>
        o.takesAll (files.flatMap (List.replicate (targets.count i))) := by
    intro i
    rw [outputs_takesAll, givenFiles_product]
  have hshown : ((files ×ˢ targets).foldl takes w).shown.text = w.shown.text ++
      String.join (files.flatMap fun file => targets.map fun i => w.printed (file, i)) := by
    have hpairs : (files ×ˢ targets).map w.printed =
        files.flatMap fun file => targets.map fun i => w.printed (file, i) := by
      simp only [SProd.sprod, List.product, List.map_flatMap, List.map_map]
      rfl
    rw [shown_takesAll, hpairs]
  exact {
    stored := by
      intro i b hi hb
      have hpos := List.count_pos_iff.mpr hi
      have hcount : targets.count i = 1 := Nat.le_antisymm (honce i hi b hb) hpos
      have hself : files.flatMap (List.replicate 1) = files := List.flatMap_singleton' files
      obtain ⟨b', htakes, hfiles⟩ := Output.files_takesAll b files
      refine ⟨b', ?_, hfiles⟩
      rw [houtputs, hb, hcount, hself, Option.map_some, htakes]
    appended := by
      intro i b hb
      rw [houtputs, hb, Option.map_some, Output.takesAll_buffer, List.map_flatMap]
      simp only [List.map_replicate]
    kept := by
      intro i header hi
      rw [houtputs, hi, Option.map_some, Output.takesAll_console]
    shown := hshown
    shownOnce := by
      intro i header hi hcount hother
      have hprinted : ∀ file, w.printed (file, i) =
          header ++ " " ++ file.name ++ "\n" ++ file.contents := by
        intro file
        rw [printed, desk_eq hi]
        rfl
      have hempty : ∀ file, ∀ j ∈ targets, j ≠ i → w.printed (file, j) = "" :=
        fun file j hj hne => printed_eq_empty (hother j hj hne)
      rw [hshown, Text.join_flatMap]
      simp only [Text.join_map_of_count hcount (hempty _), hprinted]
    unlisted := by
      intro i hi
      have hnone : files.flatMap (List.replicate (targets.count i)) = [] := by
        rw [List.count_eq_zero.mpr hi]
        simp
      have hsame : (fun o : Output => o.takesAll []) = id := rfl
      rw [houtputs, hnone, hsame, Option.map_id]
      rfl
    storage := storage_takesAll w _ }

/-- An execution with all its outputs in memory succeeds if no output of files is listed twice and
none has a file of a generated name. Then everything is delivered. -/
theorem execute_delivers {draft : Config.Draft} {config : Config} {sources : List Source}
    {g : Generation} (hc : draft.build = .ok config)
    (hg : Generation.prepare config sources = .ok g) (hsources : sources ≠ [])
    (htargets : targets ≠ []) (hmem : ∀ i ∈ targets, w.InMemory i) :
    ((execute config sources targets w).failure? = none ↔
        ∀ i ∈ targets, ∀ b, w.outputs[i]? = some (.files b) →
          targets.count i ≤ 1 ∧ ∀ file ∈ g.files, file.name ∉ b.names) ∧
      ((execute config sources targets w).failure? = none →
        Delivered targets g.files w (execute config sources targets w).state) := by
  have hnodup := (Generation.complete hc hg).distinct
  have hne : g.files ≠ [] := by
    have hnames := (Generation.complete hc hg).names
    intro hnil
    rw [hnil] at hnames
    cases hnames
  have hpairs : ∀ d ∈ g.files ×ˢ targets, w.InMemory d.2 :=
    fun d hd => hmem d.2 (List.mem_product.mp hd).2
  rw [execute_eq_performAll hsources htargets hg, ← accepts_product_iff hnodup hne]
  have haccepts := accepts_of_performAll hpairs
  refine ⟨⟨haccepts, fun h => ?_⟩, fun h => ?_⟩
  · rw [performAll_of_accepts hpairs h]
  · have honce := (accepts_product_iff hnodup hne).mp (haccepts h)
    rw [performAll_of_accepts hpairs (haccepts h)]
    exact delivered_takesAll w targets g.files fun i hi b hb => (honce i hi b hb).1

/-- Files behind an old one, every file twice in one text, and all of them on the console. The same
buffer of files twice does not do. -/
theorem execute_delivers_shop :
    ∃ g, Generation.prepare ⟨[.json], none, .json, none⟩
        [.listed [⟨"find", .get, "items", []⟩]] = .ok g ∧
      Delivered [2, 0, 1, 1] g.files
        ⟨[.files ⟨[("old.rs", "")], none⟩, .buffer {}, .console "// ---"], {}, ⟨[], []⟩⟩
        (execute ⟨[.json], none, .json, none⟩ [.listed [⟨"find", .get, "items", []⟩]] [2, 0, 1, 1]
          ⟨[.files ⟨[("old.rs", "")], none⟩, .buffer {}, .console "// ---"], {}, ⟨[], []⟩⟩).state ∧
      (execute ⟨[.json], none, .json, none⟩ [.listed [⟨"find", .get, "items", []⟩]] [0, 0]
        ⟨[.files {}], {}, ⟨[], []⟩⟩).failure? ≠ none := by
  have hc : (Config.Draft.mk ["json"] none none none).build = .ok ⟨[.json], none, .json, none⟩ := by
    rfl
  have hmem : ∀ i ∈ [2, 0, 1, 1], Workspace.InMemory
      ⟨[.files ⟨[("old.rs", "")], none⟩, .buffer {}, .console "// ---"], {}, ⟨[], []⟩⟩ i := by
    simp [Workspace.InMemory, Output.InMemory]
  have hmem' : ∀ i ∈ [0, 0], Workspace.InMemory ⟨[.files {}], {}, ⟨[], []⟩⟩ i := by
    simp [Workspace.InMemory, Output.InMemory]
  have hdelivers : ∀ g, Generation.prepare ⟨[.json], none, .json, none⟩
      [.listed [⟨"find", .get, "items", []⟩]] = .ok g → _ :=
    fun g hg => execute_delivers hc hg (List.cons_ne_nil _ _) (List.cons_ne_nil _ _) hmem
  have htwice : ∀ g, Generation.prepare ⟨[.json], none, .json, none⟩
      [.listed [⟨"find", .get, "items", []⟩]] = .ok g → _ :=
    fun g hg => execute_delivers hc hg (List.cons_ne_nil _ _) (List.cons_ne_nil _ _) hmem'
  refine ⟨_, rfl, (hdelivers _ rfl).2 rfl, fun h => ?_⟩
  have honce := ((htwice _ rfl).1.mp h 0 (by decide) {} rfl).1
  exact absurd honce (by decide)

end Workspace

end ApiClient
