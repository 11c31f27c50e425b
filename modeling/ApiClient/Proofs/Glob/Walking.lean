import ApiClient.Glob
import ApiClient.Proofs.Storage
import ApiClient.Proofs.Text.Order

/-!
# Files that a walk finds

* `Location.Precedes`: the order of locations, step by step, where steps are compared by their
  bytes;
* `Location.le_iff`: the order that found files are sorted by is the same one;
* `mem_select_iff`, `pairwise_select`, `select_eq_of_perm`: which files a walk selects, in which
  order, and that it does not matter in which order it has met them;
* `walk_eq`, `load_eq`: a glob names the same files with the same contents, in whatever order
  folders are read;
* `walk_lists`: what a walk that succeeds has found.
-/

namespace ApiClient

/-! ## The order of locations -/

namespace Location

/-- Of two locations the one comes first that is around the other, or has the smaller name, by its
bytes, where they part. -/
def Precedes : Location → Location → Prop :=
  List.Lex fun a b => Text.bytes a.toList < Text.bytes b.toList

variable {a b c : Location}

theorem precedes_iff_lt : Precedes a b ↔ a < b := by
  have hname : (fun a b : String => Text.bytes a.toList < Text.bytes b.toList) = (· < ·) :=
    funext fun _ => funext fun _ => propext Text.lt_iff_bytes_lt.symm
  rw [Precedes, hname]
  rfl

theorem le_iff : Location.le a b = true ↔ a = b ∨ Precedes a b := by
  rw [precedes_iff_lt]
  induction a generalizing b with
  | nil => cases b <;> simp [Location.le]
  | cons step a ih =>
    cases b with
    | nil => simp [Location.le]
    | cons step' b =>
      rw [Location.le]
      split_ifs with hstep
      · subst hstep
        simp [ih]
      · simp [hstep, List.cons_lt_cons_iff]

theorem le_iff_le : Location.le a b = true ↔ a ≤ b := by
  rw [le_iff, precedes_iff_lt, le_iff_eq_or_lt]

theorem le_trans (a b c : Location) (hab : Location.le a b = true) (hbc : Location.le b c = true) :
    Location.le a c = true :=
  le_iff_le.mpr ((le_iff_le.mp hab).trans (le_iff_le.mp hbc))

theorem le_total (a b : Location) : (Location.le a b || Location.le b a) = true := by
  rw [Bool.or_eq_true, le_iff_le, le_iff_le]
  exact Std.le_total

end Location

namespace Glob

variable {accept : String → Bool} {root glob : String} {place : Location}
variable {entries entries' : List (Location × Entry)} {t t' : Storage}

/-! ## Selecting -/

/-- The files that are accepted, in the order in which they are met. -/
def chosen (accept : String → Bool) (root : String) (entries : List (Location × Entry)) :
    List Location :=
  (entries.filter fun entry => entry.2 != .folder && accept (pathBelow root entry.1)).map (·.1)

theorem select_eq : select accept root entries =
    (chosen accept root entries).mergeSort Location.le :=
  rfl

/-- A walk selects the files whose path is accepted. -/
theorem mem_select_iff : place ∈ select accept root entries ↔
    ∃ entry, (place, entry) ∈ entries ∧ entry ≠ .folder ∧ accept (pathBelow root place) = true := by
  rw [select_eq, List.mem_mergeSort, chosen, List.mem_map]
  simp only [List.mem_filter, Bool.and_eq_true, bne_iff_ne]
  constructor
  · rintro ⟨⟨_, entry⟩, h, rfl⟩
    exact ⟨entry, h⟩
  · rintro ⟨entry, h⟩
    exact ⟨(place, entry), h, rfl⟩

/-- Selected files stand in the order of their locations, each once. -/
theorem pairwise_select (h : (entries.map (·.1)).Nodup) :
    (select accept root entries).Pairwise Location.Precedes := by
  have hsorted := List.pairwise_mergeSort Location.le_trans Location.le_total
    (chosen accept root entries)
  have hnodup : (chosen accept root entries).Nodup := h.sublist (List.filter_sublist.map _)
  rw [select_eq]
  exact hsorted.imp₂ (fun _ _ hle hne => (Location.le_iff.mp hle).resolve_left hne)
    (List.nodup_mergeSort.mpr hnodup)

/-- It makes no difference in which order the files are met. -/
theorem select_eq_of_perm (h : entries.Perm entries') :
    select accept root entries = select accept root entries' := by
  rw [select_eq, select_eq,
    mergeSort_eq_mergeSort_iff Location.le_trans Location.le_total]
  · exact (h.filter _).map _
  · intro a _ b _ hab hba
    exact le_antisymm (Location.le_iff_le.mp hab) (Location.le_iff_le.mp hba)

/-! ## Walking -/

/-- Everything that a walk meets is met once. -/
theorem nodup_met (h : (t.entries.map (·.1)).Nodup) (place : Location) :
    ((met t place).map (·.1)).Nodup := by
  rw [met]
  split
  · exact List.nodup_singleton _
  · exact Storage.nodup_below h place

section

variable (h : t.SameEntries t')
include h

theorem met_perm (place : Location) : (met t place).Perm (met t' place) := by
  rw [met, met, h.entry?_eq]
  split
  · exact .refl _
  · exact h.below_perm place

/-- A walk finds the same files, in whatever order folders are read. -/
theorem walk_eq (root glob : String) : walk t root glob = walk t' root glob := by
  rw [walk, walk]
  refine bind_congr fun pieces => ?_
  rw [h.locate_eq]
  refine bind_congr fun place => ?_
  rw [select_eq_of_perm (met_perm h place)]

theorem loadFiles_eq (root : String) (paths : List String) :
    loadFiles t root paths = loadFiles t' root paths := by
  induction paths with
  | nil => rfl
  | cons path paths ih => simp only [loadFiles, h.readText_eq, ih]

/-- A glob names the same files with the same contents, in whatever order folders are read. -/
theorem load_eq (glob : String) : load t glob = load t' glob := by
  have hwalk : ∀ root glob, walkAndLoad t root glob = walkAndLoad t' root glob := by
    intro root glob
    simp only [walkAndLoad, walk_eq h, loadFiles_eq h]
  have hbelow : ∀ root glob, loadBelow t root glob = loadBelow t' root glob := fun root glob => by
    simp only [loadBelow, hwalk, h.isFolder_eq, loadFiles_eq h]
  simp only [load, h.here, hbelow]

end

/-- What a walk that succeeds has found: all files below its root that the pattern accepts, in the
order of their locations, each once. -/
theorem walk_lists (h : (t.entries.map (·.1)).Nodup) {places : List Location}
    (hwalk : walk t root glob = .ok places) :
    ∃ pieces place, Pattern.compile (Path.join root glob) = .ok pieces ∧
      t.locate root = .ok place ∧ places.Pairwise Location.Precedes ∧
      ∀ found, found ∈ places ↔ ∃ entry, (found, entry) ∈ met t place ∧ entry ≠ .folder ∧
        accepts pieces (pathBelow root found) = true := by
  rw [walk] at hwalk
  obtain ⟨pieces, hpieces, hwalk⟩ := bind_eq_ok_iff.mp hwalk
  obtain ⟨place, hplace, hwalk⟩ := bind_eq_ok_iff.mp hwalk
  obtain rfl := pure_eq_ok_iff.mp hwalk
  rw [mapError_eq_ok_iff] at hpieces hplace
  exact ⟨pieces, place, hpieces, hplace, pairwise_select (nodup_met h place),
    fun found => mem_select_iff⟩

end Glob

end ApiClient
