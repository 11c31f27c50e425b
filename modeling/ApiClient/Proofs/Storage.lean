import Mathlib.Data.List.Nodup
import Mathlib.Tactic.Common
import ApiClient.Proofs.Lists
import ApiClient.Proofs.Outcome
import ApiClient.Proofs.Results
import ApiClient.Storage

/-!
# Storages with their entries in another order

The order in which a storage lists its entries is the order in which a folder is read.

* `nodup_below`: everything in a folder is met once;
* `SameEntries`: the same files and folders in another order;
* `entry?_eq`, `locate_eq`, `readText_eq`: looking at one place finds the same;
* `below_perm`: what is in a folder is the same in another order;
* `SameEntries.put`, `createFolders`, `createFile`, `append`: changing both in the same way has the
  same outcome, up to the order.
-/

namespace ApiClient.Storage

/-- Everything in a folder is met once. -/
theorem nodup_below {t : Storage} (h : (t.entries.map (·.1)).Nodup) (place : Location) :
    ((t.below place).map (·.1)).Nodup := by
  have hbelow : (t.below place).map (·.1) = (t.entries.map (·.1)).filterMap fun found =>
      if place.isPrefixOf found && place.length < found.length then some (found.drop place.length)
      else none := by
    rw [below, List.map_filterMap, List.filterMap_map]
    refine List.filterMap_congr fun entry _ => ?_
    rw [Function.comp_apply, apply_ite (Option.map _)]
    rfl
  rw [hbelow]
  refine h.filterMap fun found found' rest hfound hfound' => ?_
  -- behind the same folder the rest of a location tells where it is
  simp only [Bool.and_eq_true, decide_eq_true_eq, List.isPrefixOf_iff_prefix, Option.mem_def,
    Option.ite_none_right_eq_some, Option.some.injEq] at hfound hfound'
  obtain ⟨⟨⟨inside, rfl⟩, -⟩, rfl⟩ := hfound
  obtain ⟨⟨⟨inside', rfl⟩, -⟩, hrest⟩ := hfound'
  rw [List.drop_left, List.drop_left] at hrest
  rw [hrest]

/-- The same files and folders in another order. -/
structure SameEntries (t t' : Storage) : Prop where
  perm : t.entries.Perm t'.entries
  distinct : (t.entries.map (·.1)).Nodup
  here : t.here = t'.here

namespace SameEntries

variable {t t' : Storage} (h : SameEntries t t')
include h

/-! ## Looking -/

theorem entry?_eq (place : Location) : t.entry? place = t'.entry? place := by
  unfold entry?
  rw [lookup_eq_of_perm h.perm h.distinct]

theorem hasFolder_eq (place : Location) : t.hasFolder place = t'.hasFolder place := by
  rw [hasFolder, hasFolder, h.entry?_eq]

theorem follow_eq (place : Location) (pieces : List (List Char)) :
    t.follow place pieces = t'.follow place pieces := by
  induction pieces generalizing place with
  | nil => rfl
  | cons piece pieces ih => simp only [follow, h.hasFolder_eq, h.entry?_eq, ih]

theorem origin_eq (path : String) : t.origin path = t'.origin path := by
  rw [origin, origin, h.here]

theorem locate_eq (path : String) : t.locate path = t'.locate path := by
  simp only [locate, h.origin_eq, h.follow_eq]

theorem isFolder_eq (path : String) : t.isFolder path = t'.isFolder path := by
  simp only [isFolder, h.locate_eq, h.hasFolder_eq]

theorem readBytes_eq (path : String) : t.readBytes path = t'.readBytes path := by
  simp only [readBytes, h.locate_eq, h.entry?_eq]

theorem readText_eq (path : String) : t.readText path = t'.readText path := by
  simp only [readText, h.readBytes_eq]

theorem lastStep_eq (path : String) (atRoot : Fault) :
    t.lastStep path atRoot = t'.lastStep path atRoot := by
  simp only [lastStep, h.origin_eq, h.follow_eq, h.hasFolder_eq]

theorem below_perm (place : Location) : (t.below place).Perm (t'.below place) :=
  h.perm.filterMap _

/-! ## Changing -/

theorem put (place : Location) (entry : Entry) :
    SameEntries (t.put place entry) (t'.put place entry) where
  perm := (h.perm.filter _).append_right _
  distinct := by
    rw [Storage.put, List.map_append, List.nodup_append]
    refine ⟨h.distinct.sublist (List.filter_sublist.map _), List.nodup_singleton place, ?_⟩
    rintro _ hother _ hplace rfl
    obtain ⟨entry', hentry', rfl⟩ := List.mem_map.mp hother
    simpa [List.mem_singleton.mp hplace] using (List.mem_filter.mp hentry').2
  here := h.here

theorem createFolder (path : String) :
    Coincide SameEntries (t.createFolder path) (t'.createFolder path) := by
  rw [Storage.createFolder, Storage.createFolder, h.lastStep_eq]
  refine Coincide.bind _ fun found => ?_
  dsimp only
  split
  · exact .error _
  · refine Coincide.bind _ fun _ => ?_
    rw [h.entry?_eq]
    split
    · exact .error _
    · exact .ok (h.put _ _)

theorem unlessFolder (path : String) (fault : Fault) :
    Outcome.Alike SameEntries (t.unlessFolder path fault) (t'.unlessFolder path fault) := by
  rw [Storage.unlessFolder, Storage.unlessFolder, h.isFolder_eq]
  split <;> exact ⟨rfl, h⟩

omit h in
theorem createFoldersIn (rounds : Nat) {t t' : Storage} (h : SameEntries t t') (path : String) :
    Outcome.Alike SameEntries (Storage.createFoldersIn rounds t path)
      (Storage.createFoldersIn rounds t' path) := by
  induction rounds generalizing t t' path with
  | zero => exact ⟨rfl, h⟩
  | succ rounds ih =>
    rw [Storage.createFoldersIn, Storage.createFoldersIn]
    split
    · exact ⟨rfl, h⟩
    · have hmade := h.createFolder path
      generalize t.createFolder path = x, t'.createFolder path = y at hmade
      cases hmade with
      | ok hmade => exact ⟨rfl, hmade⟩
      | error fault =>
        cases fault with
        | notFound =>
          -- the folder is made when the one around it is there, in the end
          refine (ih h _).andThen fun s s' hs => ?_
          have hagain := hs.createFolder path
          generalize s.createFolder path = x, s'.createFolder path = y at hagain
          cases hagain with
          | ok hagain => exact ⟨rfl, hagain⟩
          | error fault => exact hs.unlessFolder path fault
        | _ => exact h.unlessFolder path _

theorem createFolders (path : String) :
    Outcome.Alike SameEntries (t.createFolders path) (t'.createFolders path) :=
  createFoldersIn _ h path

theorem createFile (path : String) :
    Coincide (fun made made' => made.1 = made'.1 ∧ SameEntries made.2 made'.2)
      (t.createFile path) (t'.createFile path) := by
  rw [Storage.createFile, Storage.createFile, h.lastStep_eq]
  refine Coincide.bind _ fun found => ?_
  dsimp only
  split
  · exact .error _
  · refine Coincide.bind _ fun _ => ?_
    rw [h.hasFolder_eq]
    split
    · exact .error _
    · exact .ok ⟨rfl, h.put _ _⟩

theorem append (place : Location) (data : String) :
    SameEntries (t.append place data) (t'.append place data) := by
  rw [Storage.append, Storage.append, h.entry?_eq]
  split
  · exact h.put _ _
  · exact h

end SameEntries

end ApiClient.Storage
