import ApiClient.Proofs.Document
import ApiClient.Proofs.Entries
import ApiClient.Proofs.Json.Numbers

/-!
# JSON values as they are written

* `Tree`: a value as it is written, its numbers with all their parts;
* `Tree.induction`: what holds of a value if it holds of what is in it;
* `Tree.document`: the document that stands for it;
* `Tree.at?`, `at?_document`: what stands at a place of a value stands there in its document;
* `Tree.Holds`: what stands anywhere in a value.
-/

namespace ApiClient.Json

/-- A value as it is written, but for white space and the escapes in strings. -/
inductive Tree where
  | null
  | bool (value : Bool)
  | number (token : Number)
  | text (content : String)
  | list (items : List Tree)
  | map (members : List (String × Tree))

namespace Tree

/-- What holds of a value if it holds of everything in it holds of every value. -/
@[elab_as_elim]
theorem induction {P : Tree → Prop} (null : P .null) (bool : ∀ value, P (.bool value))
    (number : ∀ token, P (.number token)) (text : ∀ content, P (.text content))
    (list : ∀ items, (∀ t ∈ items, P t) → P (.list items))
    (map : ∀ members, (∀ member ∈ members, P member.2) → P (.map members)) (t : Tree) : P t :=
  @Tree.rec P (fun items => ∀ t ∈ items, P t) (fun members => ∀ member ∈ members, P member.2)
    (fun member => P member.2) null bool number text list map (List.forall_mem_nil _)
    (fun _ _ ht hitems => List.forall_mem_cons.mpr ⟨ht, hitems⟩) (List.forall_mem_nil _)
    (fun _ _ hmember hmembers => List.forall_mem_cons.mpr ⟨hmember, hmembers⟩) (fun _ _ ht => ht) t

/-! ## Documents -/

mutual

/-- The document that stands for a value. -/
def document : Tree → Document
  | .null => .null
  | .bool value => .text (if value then "true" else "false")
  | .number token => .text (String.ofList token.kept)
  | .text content => .text content
  | .list items => .list (documents items)
  | .map members => .ofPairs (pairs members)

/-- The documents that stand for items. -/
def documents : List Tree → List Document
  | [] => []
  | t :: items => t.document :: documents items

/-- The keys of members with the documents that stand for their values. -/
def pairs : List (String × Tree) → List (String × Document)
  | [] => []
  | (key, t) :: members => (key, t.document) :: pairs members

end

theorem documents_eq_map (items : List Tree) : documents items = items.map document := by
  induction items with
  | nil => rfl
  | cons t items ih => rw [documents, ih, List.map_cons]

theorem pairs_eq_map (members : List (String × Tree)) :
    pairs members = members.map fun member => (member.1, member.2.document) := by
  induction members with
  | nil => rfl
  | cons member members ih =>
    obtain ⟨key, t⟩ := member
    rw [pairs, ih, List.map_cons]

/-! ## Places -/

/-- What stands at a place in a value. A key that is repeated leads to its last value. -/
def at? : List Document.Step → Tree → Option Tree
  | [], t => some t
  | .item index :: steps, .list items => items[index]?.bind (at? steps)
  | .key name :: steps, .map members => (Entries.find? name members.reverse).bind (at? steps)
  | _ :: _, _ => none

end Tree

theorem find?_pairs (key : String) (members : List (String × Tree)) :
    Entries.find? key (Entries.ofPairs (Tree.pairs members)) =
      (Entries.find? key members.reverse).map Tree.document := by
  rw [Entries.find?_ofPairs_eq, Tree.pairs_eq_map, ← List.map_reverse, Entries.find?_map]

/-- The places of a value are those of its document. -/
theorem at?_document (steps : List Document.Step) (t : Tree) :
    t.document.at? steps = (t.at? steps).map Tree.document := by
  induction steps generalizing t with
  | nil => rfl
  | cons step steps ih =>
    cases step with
    | item index =>
      cases t with
      | list items =>
        rw [Tree.document, Document.at?, Tree.at?, Tree.documents_eq_map, List.getElem?_map]
        cases items[index]? with
        | none => rfl
        | some t => exact ih t
      | _ => rfl
    | key name =>
      cases t with
      | map members =>
        rw [Tree.document, Document.ofPairs, Document.at?, Tree.at?, find?_pairs]
        cases Entries.find? name members.reverse with
        | none => rfl
        | some t => exact ih t
      | _ => rfl

/-! ## What a value holds -/

namespace Tree

/-- A value holds itself, and what its items and the values of its members hold. -/
inductive Holds : Tree → Tree → Prop
  | self (t : Tree) : Holds t t
  | item {items : List Tree} {t part : Tree} (h : t ∈ items) (inside : Holds t part) :
      Holds (.list items) part
  | value {members : List (String × Tree)} {member : String × Tree} {part : Tree}
      (h : member ∈ members) (inside : Holds member.2 part) : Holds (.map members) part

end Tree

end ApiClient.Json
