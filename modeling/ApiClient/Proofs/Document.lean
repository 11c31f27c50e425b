import Mathlib.Tactic.Common
import ApiClient.Document

/-!
# Documents in documents

* `Document.induction`: what holds of a document if it holds of what is in it;
* `Document.nesting`: how many lists and maps are around the innermost part of a document;
* `nesting_list_le_iff`, `nesting_map_le_iff`: bounds on the nesting of a list or a map;
* `Document.Holds`: what stands anywhere in a document, with `forall_holds_list_iff` and
  `forall_holds_map_iff` for what holds of all of it;
* `Document.Step`, `Document.at?`: what stands at one place.
-/

namespace ApiClient.Document

/-! ## Induction -/

/-- What holds of a document if it holds of everything in it holds of every document. -/
@[elab_as_elim]
theorem induction {P : Document → Prop} (null : P .null) (text : ∀ content, P (.text content))
    (list : ∀ items, (∀ d ∈ items, P d) → P (.list items))
    (map : ∀ entries, (∀ entry ∈ entries, P entry.2) → P (.map entries)) (d : Document) : P d :=
  @Document.rec P (fun items => ∀ d ∈ items, P d) (fun entries => ∀ entry ∈ entries, P entry.2)
    (fun entry => P entry.2) null text list map (List.forall_mem_nil _)
    (fun _ _ hd hitems => List.forall_mem_cons.mpr ⟨hd, hitems⟩) (List.forall_mem_nil _)
    (fun _ _ hentry hentries => List.forall_mem_cons.mpr ⟨hentry, hentries⟩) (fun _ _ hd => hd) d

/-! ## Nesting -/

mutual

/-- The number of lists and maps around the innermost part of a document. -/
def nesting : Document → Nat
  | .null => 0
  | .text _ => 0
  | .list items => nestingOfItems items + 1
  | .map entries => nestingOfEntries entries + 1

/-- The largest nesting of items. -/
def nestingOfItems : List Document → Nat
  | [] => 0
  | d :: items => max d.nesting (nestingOfItems items)

/-- The largest nesting of values. -/
def nestingOfEntries : List (String × Document) → Nat
  | [] => 0
  | (_, d) :: entries => max d.nesting (nestingOfEntries entries)

end

theorem nestingOfItems_le_iff {items : List Document} {n : Nat} :
    nestingOfItems items ≤ n ↔ ∀ d ∈ items, d.nesting ≤ n := by
  induction items with
  | nil => simp [nestingOfItems]
  | cons d items ih => rw [nestingOfItems, Nat.max_le, ih, List.forall_mem_cons]

theorem nestingOfEntries_le_iff {entries : List (String × Document)} {n : Nat} :
    nestingOfEntries entries ≤ n ↔ ∀ entry ∈ entries, entry.2.nesting ≤ n := by
  induction entries with
  | nil => simp [nestingOfEntries]
  | cons entry entries ih => rw [nestingOfEntries, Nat.max_le, ih, List.forall_mem_cons]

theorem nesting_list_le_iff {items : List Document} {n : Nat} :
    (Document.list items).nesting ≤ n + 1 ↔ ∀ d ∈ items, d.nesting ≤ n := by
  rw [nesting, Nat.add_le_add_iff_right, nestingOfItems_le_iff]

theorem nesting_map_le_iff {entries : List (String × Document)} {n : Nat} :
    (Document.map entries).nesting ≤ n + 1 ↔ ∀ entry ∈ entries, entry.2.nesting ≤ n := by
  rw [nesting, Nat.add_le_add_iff_right, nestingOfEntries_le_iff]

/-! ## What a document holds -/

/-- A document holds itself, and what its items and its values hold. -/
inductive Holds : Document → Document → Prop
  | self (d : Document) : Holds d d
  | item {items : List Document} {d part : Document} (h : d ∈ items) (inside : Holds d part) :
      Holds (.list items) part
  | value {entries : List (String × Document)} {entry : String × Document} {part : Document}
      (h : entry ∈ entries) (inside : Holds entry.2 part) : Holds (.map entries) part

variable {P : Document → Prop}

theorem forall_holds_text_iff {content : String} :
    (∀ part, Holds (.text content) part → P part) ↔ P (.text content) := by
  constructor
  · exact fun h => h _ (.self _)
  · rintro h part (_ | _)
    exact h

theorem forall_holds_list_iff {items : List Document} :
    (∀ part, Holds (.list items) part → P part) ↔
      P (.list items) ∧ ∀ d ∈ items, ∀ part, Holds d part → P part := by
  constructor
  · exact fun h => ⟨h _ (.self _), fun d hd part hp => h part (.item hd hp)⟩
  · rintro ⟨hlist, hitems⟩ part hp
    cases hp with
    | self => exact hlist
    | item hd inside => exact hitems _ hd part inside

theorem forall_holds_map_iff {entries : List (String × Document)} :
    (∀ part, Holds (.map entries) part → P part) ↔
      P (.map entries) ∧ ∀ entry ∈ entries, ∀ part, Holds entry.2 part → P part := by
  constructor
  · exact fun h => ⟨h _ (.self _), fun entry he part hp => h part (.value he hp)⟩
  · rintro ⟨hmap, hentries⟩ part hp
    cases hp with
    | self => exact hmap
    | value he inside => exact hentries _ he part inside

/-! ## Places -/

/-- One step into a document: to an item of a list, or to the value of a key. -/
inductive Step where
  | item (index : Nat)
  | key (name : String)

/-- What stands at a place in a document. -/
def at? : List Step → Document → Option Document
  | [], d => some d
  | .item index :: steps, .list items => items[index]?.bind (at? steps)
  | .key name :: steps, .map entries => (Entries.find? name entries).bind (at? steps)
  | _ :: _, _ => none

end ApiClient.Document
