import Mathlib.Data.List.Perm.Subperm
import Mathlib.Data.String.Basic
import Mathlib.Logic.Relation
import ApiClient.Proofs.Document
import ApiClient.Proofs.Entries

/-!
# Documents that are equal up to the order of entries

* `Keyed`: documents in which the keys of every map are distinct;
* `sorted`: a document with the entries of every map in the order of their keys;
* `same_iff_sorted_eq`: documents are equal if and only if they are the same when they are sorted;
* `Reordered`: a document with the entries of one map, anywhere in it, in another order;
* `same_iff_reordered`: documents are equal if and only if one can be reordered into the other;
* `same_up_to_order`: what follows for equality, and how documents are built.
-/

namespace ApiClient.Document

variable {a b d d' : Document} {items items' : List Document}
variable {entries entries' : List (String × Document)}

/-! ## Distinct keys -/

/-- The keys of every map in a document are distinct. -/
def Keyed (d : Document) : Prop :=
  ∀ part, Holds d part → ∀ entries ∈ part.asMap?, (Entries.keys entries).Nodup

@[simp] theorem keyed_null : Document.null.Keyed := by
  rintro part ⟨⟩
  exact nofun

@[simp] theorem keyed_text (content : String) : (Document.text content).Keyed :=
  forall_holds_text_iff.mpr nofun

@[simp] theorem keyed_list_iff : (Document.list items).Keyed ↔ ∀ d ∈ items, d.Keyed := by
  rw [Keyed, forall_holds_list_iff]
  exact and_iff_right nofun

@[simp] theorem keyed_map_iff : (Document.map entries).Keyed ↔
    (Entries.keys entries).Nodup ∧ ∀ entry ∈ entries, entry.2.Keyed := by
  rw [Keyed, forall_holds_map_iff]
  exact and_congr_left' ⟨fun h => h entries rfl, fun h _ he => Option.some.inj he ▸ h⟩

/-! ## Sorting -/

/-- Entries in the order of their keys. -/
def byKey (entries : List (String × Document)) : List (String × Document) :=
  entries.mergeSort fun x y => decide (x.1 ≤ y.1)

mutual

/-- The document with the entries of every map in the order of their keys. -/
def sorted : Document → Document
  | .null => .null
  | .text content => .text content
  | .list items => .list (sortedItems items)
  | .map entries => .map (byKey (sortedEntries entries))

/-- Every item sorted. -/
def sortedItems : List Document → List Document
  | [] => []
  | d :: rest => sorted d :: sortedItems rest

/-- Every entry's value sorted. -/
def sortedEntries : List (String × Document) → List (String × Document)
  | [] => []
  | (key, d) :: rest => (key, sorted d) :: sortedEntries rest

end

theorem sortedItems_eq (items : List Document) : sortedItems items = items.map sorted := by
  induction items with
  | nil => rfl
  | cons d items ih => rw [sortedItems, ih, List.map_cons]

theorem sortedEntries_eq (entries : List (String × Document)) :
    sortedEntries entries = entries.map fun entry => (entry.1, entry.2.sorted) := by
  induction entries with
  | nil => rfl
  | cons entry entries ih => rw [sortedEntries, ih, List.map_cons]

theorem keys_sortedEntries (entries : List (String × Document)) :
    Entries.keys (sortedEntries entries) = Entries.keys entries := by
  rw [sortedEntries_eq, Entries.keys, List.map_map]
  rfl

theorem nodup_keys_sortedEntries (h : (Entries.keys entries).Nodup) :
    (Entries.keys (sortedEntries entries)).Nodup := by
  rwa [keys_sortedEntries]

/-- Entries with distinct keys become the same by sorting if they are the same in some order. -/
theorem byKey_eq_iff (h : (Entries.keys entries).Nodup) :
    byKey entries = byKey entries' ↔ entries.Perm entries' := by
  refine mergeSort_eq_mergeSort_iff ?_ ?_ ?_
  · intro x y z hxy hyz
    exact decide_eq_true (le_trans (of_decide_eq_true hxy) (of_decide_eq_true hyz))
  · intro x y
    simpa using le_total x.1 y.1
  · rintro ⟨key, x⟩ hx ⟨key', y⟩ hy hle hge
    obtain rfl := le_antisymm (of_decide_eq_true hle) (of_decide_eq_true hge)
    rw [← Entries.find?_eq_some_iff h] at hx hy
    cases hx.symm.trans hy
    rfl

/-! ## Equality -/

theorem sameItems_iff :
    sameItems items items' = true ↔ List.Forall₂ (fun d d' => same d d' = true) items items' := by
  induction items generalizing items' with
  | nil => cases items' <;> simp [sameItems]
  | cons d items ih => cases items' <;> simp [sameItems, ih]

theorem foundEntries_iff :
    foundEntries entries entries' = true ↔ ∀ entry ∈ entries,
      ∃ d, Entries.find? entry.1 entries' = some d ∧ same entry.2 d = true := by
  induction entries with
  | nil => simp [foundEntries]
  | cons entry entries ih =>
    obtain ⟨key, d⟩ := entry
    rw [foundEntries, Bool.and_eq_true, ih, List.forall_mem_cons]
    refine and_congr_left' ?_
    cases Entries.find? key entries' <;> simp

theorem same_list_iff : same (.list items) (.list items') = true ↔
    List.Forall₂ (fun d d' => same d d' = true) items items' := by
  rw [same, sameItems_iff]

theorem same_map_iff : same (.map entries) (.map entries') = true ↔
    entries.length = entries'.length ∧ ∀ entry ∈ entries,
      ∃ d, Entries.find? entry.1 entries' = some d ∧ same entry.2 d = true := by
  rw [same, Bool.and_eq_true, beq_iff_eq, foundEntries_iff]

/-- Documents are equal if and only if they are the same when they are sorted. -/
theorem same_iff_sorted_eq (ha : a.Keyed) (hb : b.Keyed) :
    same a b = true ↔ a.sorted = b.sorted := by
  induction a using Document.induction generalizing b with
  | null => cases b <;> simp [same, sorted]
  | text content => cases b <;> simp [same, sorted]
  | list items ih =>
    cases b with
    | null | text _ | map _ => simp [same, sorted]
    | list items' =>
      rw [keyed_list_iff] at ha hb
      rw [same_list_iff, sorted, sorted, list.injEq, sortedItems_eq, sortedItems_eq]
      exact forall₂_iff_map_eq fun d hd d' hd' => ih d hd (ha d hd) (hb d' hd')
  | map entries ih =>
    cases b with
    | null | text _ | list _ => simp [same, sorted]
    | map entries' =>
      rw [keyed_map_iff] at ha hb
      -- the values found under the keys are equal if and only if the sorted entries are among the
      -- other ones
      have hfound : ∀ entry ∈ entries,
          (∃ d, Entries.find? entry.1 entries' = some d ∧ same entry.2 d = true) ↔
            (entry.1, entry.2.sorted) ∈ sortedEntries entries' := by
        intro entry he
        simp only [Entries.find?_eq_some_iff hb.1, sortedEntries_eq, List.mem_map, Prod.mk.injEq,
          Prod.exists]
        constructor
        · rintro ⟨d, hd, hsame⟩
          exact ⟨entry.1, d, hd, rfl, ((ih entry he (ha.2 entry he) (hb.2 _ hd)).mp hsame).symm⟩
        · rintro ⟨_, d, hd, rfl, hsorted⟩
          exact ⟨d, hd, (ih entry he (ha.2 entry he) (hb.2 _ hd)).mpr hsorted.symm⟩
      have hnodup : (sortedEntries entries).Nodup :=
        List.Nodup.of_map _ (nodup_keys_sortedEntries ha.1)
      rw [same_map_iff, sorted, sorted, map.injEq, byKey_eq_iff (nodup_keys_sortedEntries ha.1),
        perm_iff_of_nodup hnodup, forall₂_congr hfound]
      simp only [sortedEntries_eq, List.length_map, List.forall_mem_map]

/-- Equal documents look alike from outside. -/
theorem isNull_eq_of_same (h : same a b = true) :
    a.isNull = b.isNull ∧ a.asText? = b.asText? ∧ a.asList?.isSome = b.asList?.isSome ∧
      a.asMap?.isSome = b.asMap?.isSome := by
  cases a <;> cases b <;> simp_all [same, isNull, asText?, asList?, asMap?]

/-! ## Reordering -/

/-- The entries of one map, which is a document or stands anywhere in it, in another order. -/
inductive Reordered : Document → Document → Prop
  | here {entries entries' : List (String × Document)} (h : entries.Perm entries') :
      Reordered (.map entries) (.map entries')
  | item {before after : List Document} {d d' : Document} (h : Reordered d d') :
      Reordered (.list (before ++ d :: after)) (.list (before ++ d' :: after))
  | value {before after : List (String × Document)} {key : String} {d d' : Document}
      (h : Reordered d d') :
      Reordered (.map (before ++ (key, d) :: after)) (.map (before ++ (key, d') :: after))

namespace Reordered

theorem symm (h : Reordered d d') : Reordered d' d := by
  induction h with
  | here h => exact .here h.symm
  | item _ ih => exact .item ih
  | value _ ih => exact .value ih

instance : Std.Symm Reordered := ⟨fun _ _ => Reordered.symm⟩

theorem keyed (h : Reordered d d') (hd : d.Keyed) : d'.Keyed := by
  induction h with
  | here h =>
    rw [keyed_map_iff] at hd ⊢
    exact ⟨(h.map _).nodup_iff.mp hd.1, fun entry he => hd.2 entry (h.mem_iff.mpr he)⟩
  | item _ ih =>
    rw [keyed_list_iff, List.forall_mem_append, List.forall_mem_cons] at hd ⊢
    exact ⟨hd.1, ih hd.2.1, hd.2.2⟩
  | value _ ih =>
    rw [keyed_map_iff, List.forall_mem_append, List.forall_mem_cons] at hd ⊢
    refine ⟨?_, hd.2.1, ih hd.2.2.1, hd.2.2.2⟩
    simpa [Entries.keys] using hd.1

/-- Sorting undoes every change of the order. -/
theorem sorted_eq (h : Reordered d d') (hd : d.Keyed) : d.sorted = d'.sorted := by
  induction h with
  | here h =>
    rw [keyed_map_iff] at hd
    rw [sorted, sorted, (byKey_eq_iff (nodup_keys_sortedEntries hd.1)).mpr]
    rw [sortedEntries_eq, sortedEntries_eq]
    exact h.map _
  | item _ ih =>
    rw [keyed_list_iff, List.forall_mem_append, List.forall_mem_cons] at hd
    simp only [sorted, sortedItems_eq, List.map_append, List.map_cons, ih hd.2.1]
  | value _ ih =>
    rw [keyed_map_iff, List.forall_mem_append, List.forall_mem_cons] at hd
    simp only [sorted, sortedEntries_eq, List.map_append, List.map_cons, ih hd.2.2.1]

end Reordered

open Relation (ReflTransGen)

/-- The items behind some others can be reordered one after the other. -/
theorem reordered_items (before : List Document)
    (h : ∀ d ∈ items, ReflTransGen Reordered d d.sorted) :
    ReflTransGen Reordered (.list (before ++ items)) (.list (before ++ items.map sorted)) := by
  induction items generalizing before with
  | nil => exact .refl
  | cons d items ih =>
    rw [List.forall_mem_cons] at h
    have hfirst : ReflTransGen Reordered (.list (before ++ d :: items))
        (.list (before ++ d.sorted :: items)) :=
      ReflTransGen.lift (fun d => Document.list (before ++ d :: items))
        (fun _ _ hstep => Reordered.item hstep) _ _ h.1
    have hrest := ih (before ++ [d.sorted]) h.2
    rw [List.append_assoc, List.append_assoc] at hrest
    exact hfirst.trans hrest

/-- The values behind some others can be reordered one after the other. -/
theorem reordered_values (before : List (String × Document))
    (h : ∀ entry ∈ entries, ReflTransGen Reordered entry.2 entry.2.sorted) :
    ReflTransGen Reordered (.map (before ++ entries)) (.map (before ++ sortedEntries entries)) := by
  induction entries generalizing before with
  | nil => exact .refl
  | cons entry entries ih =>
    obtain ⟨key, d⟩ := entry
    rw [List.forall_mem_cons] at h
    have hfirst : ReflTransGen Reordered (.map (before ++ (key, d) :: entries))
        (.map (before ++ (key, d.sorted) :: entries)) :=
      ReflTransGen.lift (fun d => Document.map (before ++ (key, d) :: entries))
        (fun _ _ hstep => Reordered.value hstep) _ _ h.1
    have hrest := ih (before ++ [(key, d.sorted)]) h.2
    rw [List.append_assoc, List.append_assoc] at hrest
    exact hfirst.trans hrest

/-- A document can be reordered until it is sorted. -/
theorem reordered_sorted (d : Document) : ReflTransGen Reordered d d.sorted := by
  induction d using Document.induction with
  | null => exact .refl
  | text content => exact .refl
  | list items ih =>
    rw [sorted, sortedItems_eq]
    exact reordered_items [] ih
  | map entries ih =>
    rw [sorted]
    exact (reordered_values [] ih).tail (.here (List.mergeSort_perm _ _).symm)

/-- Documents are equal if and only if one can be reordered into the other. -/
theorem same_iff_reordered (ha : a.Keyed) (hb : b.Keyed) :
    same a b = true ↔ ReflTransGen Reordered a b := by
  rw [same_iff_sorted_eq ha hb]
  constructor
  · intro h
    have hback : ReflTransGen Reordered b.sorted b :=
      Std.Symm.symm _ _ (reordered_sorted b)
    exact (h ▸ reordered_sorted a).trans hback
  · intro h
    suffices a.sorted = b.sorted ∧ b.Keyed from this.1
    clear hb
    induction h with
    | refl => exact ⟨rfl, ha⟩
    | tail _ hstep ih => exact ⟨ih.1.trans (hstep.sorted_eq ih.2), hstep.keyed ih.2⟩

/-! ## Building -/

theorem rebuiltItems_eq (items : List Document) : rebuiltItems items = items.map rebuilt := by
  induction items with
  | nil => rfl
  | cons d items ih => rw [rebuiltItems, ih, List.map_cons]

theorem rebuiltEntries_eq (entries : List (String × Document)) :
    rebuiltEntries entries = entries.map fun entry => (entry.1, entry.2.rebuilt) := by
  induction entries with
  | nil => rfl
  | cons entry entries ih => rw [rebuiltEntries, ih, List.map_cons]

/-- What is built of pairs has distinct keys. -/
theorem keyed_ofPairs {pairs : List (String × Document)} (h : ∀ pair ∈ pairs, pair.2.Keyed) :
    (ofPairs pairs).Keyed :=
  keyed_map_iff.mpr ⟨Entries.nodup_keys_ofPairs pairs,
    fun entry he => h entry (Entries.mem_of_mem_ofPairs he)⟩

/-- Building a document again changes nothing, not even the order of entries. -/
theorem rebuilt_eq (h : d.Keyed) : d.rebuilt = d := by
  induction d using Document.induction with
  | null => rfl
  | text content => rfl
  | list items ih =>
    rw [keyed_list_iff] at h
    have hitems : items.map rebuilt = items.map id :=
      List.map_congr_left fun d hd => ih d hd (h d hd)
    rw [rebuilt, ofItems, rebuiltItems_eq, hitems, List.map_id]
  | map entries ih =>
    rw [keyed_map_iff] at h
    have hentries : entries.map (fun entry => (entry.1, entry.2.rebuilt)) = entries.map id :=
      List.map_congr_left fun entry he => Prod.ext rfl (ih entry he (h.2 entry he))
    rw [rebuilt, ofPairs, rebuiltEntries_eq, hentries, List.map_id, Entries.ofPairs_of_nodup h.1]

/-! ## Laws of equality -/

/-- Equality of documents is equality up to the order of entries: that of sorted documents. It is
an equivalence, it does not see the order of the entries of any map, it compares lists item by item,
and tells all kinds of documents apart. A map that is built of pairs has every key in its first
place and with its last value, and building a document again keeps the order of its entries. -/
theorem same_up_to_order (ha : a.Keyed) (hb : b.Keyed) :
    (same a b = true ↔ a.sorted = b.sorted) ∧
      (same a b = true ↔ ReflTransGen Reordered a b) ∧
      (Equivalence fun d d' : {d : Document // d.Keyed} => same d.1 d'.1 = true) ∧
      (∀ a', Reordered a a' → a'.Keyed ∧ same a a' = true ∧ same a' b = same a b) ∧
      (∀ items items', a = .list items → b = .list items' →
        (same a b = true ↔ List.Forall₂ (fun d d' => same d d' = true) items items')) ∧
      (same a b = true → a.isNull = b.isNull ∧ a.asText? = b.asText? ∧
        a.asList?.isSome = b.asList?.isSome ∧ a.asMap?.isSome = b.asMap?.isSome) ∧
      (∀ pairs : List (String × Document), ∃ entries, ofPairs pairs = .map entries ∧
        Entries.keys entries = (Entries.keys pairs).eraseDups ∧
        (∀ before key d after, pairs = before ++ (key, d) :: after → key ∉ Entries.keys after →
          Entries.find? key entries = some d) ∧
        ((∀ pair ∈ pairs, pair.2.Keyed) → (Document.map entries).Keyed)) ∧
      a.rebuilt = a := by
  refine ⟨same_iff_sorted_eq ha hb, same_iff_reordered ha hb, ⟨?_, ?_, ?_⟩, ?_, ?_,
    isNull_eq_of_same, fun pairs => ?_, rebuilt_eq ha⟩
  · exact fun d => (same_iff_sorted_eq d.2 d.2).mpr rfl
  · intro d d' h
    rw [same_iff_sorted_eq d.2 d'.2] at h
    exact (same_iff_sorted_eq d'.2 d.2).mpr h.symm
  · intro d d' d'' h h'
    rw [same_iff_sorted_eq d.2 d'.2] at h
    rw [same_iff_sorted_eq d'.2 d''.2] at h'
    exact (same_iff_sorted_eq d.2 d''.2).mpr (h.trans h')
  · intro a' h
    have ha' := h.keyed ha
    have hsorted := h.sorted_eq ha
    refine ⟨ha', (same_iff_sorted_eq ha ha').mpr hsorted, ?_⟩
    rw [Bool.eq_iff_iff, same_iff_sorted_eq ha' hb, same_iff_sorted_eq ha hb, hsorted]
  · rintro items items' rfl rfl
    exact same_list_iff
  · refine ⟨_, rfl, Entries.keys_ofPairs pairs, ?_, keyed_ofPairs⟩
    rintro before key d after rfl hlast
    exact Entries.find?_ofPairs hlast before d

/-- Two maps in another order, one inside the other. -/
theorem same_up_to_order_nested :
    let a : Document :=
      .map [("x", .list [.text "1", .null]), ("y", .map [("p", .null), ("q", .text "2")])]
    let b : Document :=
      .map [("y", .map [("q", .text "2"), ("p", .null)]), ("x", .list [.text "1", .null])]
    a.Keyed ∧ b.Keyed ∧ same a b = true ∧ a.sorted = b.sorted ∧ ReflTransGen Reordered a b ∧
      a.rebuilt = a := by
  intro a b
  have ha : a.Keyed := by simp [a, Entries.keys]
  have hb : b.Keyed := by simp [b, Entries.keys]
  have hsame : same a b = true := by decide
  obtain ⟨hsorted, hreordered, -, -, -, -, -, hrebuilt⟩ := same_up_to_order ha hb
  exact ⟨ha, hb, hsame, hsorted.mp hsame, hreordered.mp hsame, hrebuilt⟩

end ApiClient.Document
