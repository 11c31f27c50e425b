import Mathlib.Data.List.Basic
import ApiClient.Proofs.Xml.Shapes

/-!
# Elements of which everything shows

* `Clean`: elements in which nothing is hidden or overwritten;
* `document_of_compound`, `document_of_array`, `document_of_leaf`: their documents;
* `Document.kind`: the kind of an element, read off its document;
* `Element.untagged`: an element without the tags that its document never shows;
* `clean_distinguished`: clean elements with the same document are equal up to these tags.
-/

namespace ApiClient.Xml

/-! ## Clean elements -/

/-- An element that hides and overwrites nothing itself. -/
structure CleanAt (place : Place) (e : Element) : Prop where
  distinct : (e.attributes.map (·.1)).Nodup
  untyped : e.kind = .compound → "type" ∉ e.attributes.map (·.1)
  children : e.kind = .compound → (e.children.map (·.name)).Nodup ∧
    ∀ c ∈ e.children, c.name ∉ e.attributes.map (·.1)
  value : e.kind ≠ .compound → "value" ∉ e.attributes.map (·.1)
  bare : place = .body → e.kind = .array → ∀ a ∈ e.attributes, a = ("type", "array")
  untypedLeaf : place = .body → e.kind = .leaf → "type" ∉ e.attributes.map (·.1)
  noText : e.kind ≠ .leaf → e.text = ""
  trimmed : e.kind = .leaf → Text.trim e.text = e.text

/-- An element in which nothing is hidden or overwritten, at a place. -/
inductive Clean : Place → Element → Prop
  | mk {place : Place} {e : Element} (here : CleanAt place e)
      (inside : ∀ c ∈ e.children, Clean e.inner c) : Clean place e

theorem Clean.here {place : Place} {e : Element} : Clean place e → CleanAt place e
  | .mk here _ => here

theorem Clean.inside {place : Place} {e : Element} :
    Clean place e → ∀ c ∈ e.children, Clean e.inner c
  | .mk _ inside => inside

namespace Element

theorem dataAttributes_of_untyped {e : Element} (h : "type" ∉ e.attributes.map (·.1)) :
    e.dataAttributes = e.attributes := by
  refine List.filter_eq_self.mpr fun a ha => bne_iff_ne.mpr fun he => ?_
  have hmem : a.1 ∈ e.attributes.map (·.1) := List.mem_map_of_mem ha
  rw [he] at hmem
  exact h hmem

theorem content_of_trimmed {e : Element} (h : Text.trim e.text = e.text) :
    e.content = .text e.text := by
  rw [content, h]

end Element

/-! ## Documents of clean elements -/

namespace CleanAt

open Element

variable {place : Place} {e : Element}

theorem document_of_compound (h : CleanAt place e) (hkind : e.kind = .compound) :
    place.document e = .map (attributePairs e.attributes ++ childPairs e.children) := by
  have hbody : place.document e = e.body := by
    cases place
    · rfl
    · exact keyed_of_compound hkind
  have hkeys : (Entries.keys (attributePairs e.attributes ++ childPairs e.children)).Nodup := by
    rw [Entries.keys_append, keys_attributePairs, keys_childPairs, List.nodup_append]
    refine ⟨h.distinct, (h.children hkind).1, ?_⟩
    rintro key hkey _ hname rfl
    obtain ⟨c, hc, rfl⟩ := List.mem_map.mp hname
    exact (h.children hkind).2 c hc hkey
  rw [hbody, body_of_compound hkind, dataAttributes_of_untyped (h.untyped hkind),
    Entries.ofPairs_of_nodup hkeys]

theorem ofPairs_value (h : CleanAt place e) (hkind : e.kind ≠ .compound) (value : Document) :
    Entries.ofPairs (attributePairs e.attributes ++ [("value", value)]) =
      attributePairs e.attributes ++ [("value", value)] := by
  have hvalue := h.value hkind
  refine Entries.ofPairs_of_nodup ?_
  rw [Entries.keys_append, keys_attributePairs, List.nodup_append]
  refine ⟨h.distinct, by simp [Entries.keys], ?_⟩
  rintro key hkey _ hmem rfl
  obtain rfl : key = "value" := List.mem_singleton.mp hmem
  exact hvalue hkey

theorem document_of_array (h : CleanAt place e) (hkind : e.kind = .array) :
    place.document e =
      if place = .body then .list (e.children.map body)
      else .map (attributePairs e.attributes ++ [("value", .list (e.children.map body))]) := by
  have hcompound : e.kind ≠ .compound := by simp [hkind]
  cases place with
  | body => exact body_of_array hkind
  | keyed =>
    rw [Place.document, keyed_of_not_compound hcompound, Element.value, if_pos hkind,
      h.ofPairs_value hcompound]
    rfl

theorem document_of_leaf (h : CleanAt place e) (hkind : e.kind = .leaf) :
    place.document e =
      if place = .body ∧ e.attributes = [] then .text e.text
      else .map (attributePairs e.attributes ++ [("value", .text e.text)]) := by
  have hcompound : e.kind ≠ .compound := by simp [hkind]
  have hcontent := content_of_trimmed (h.trimmed hkind)
  cases place with
  | body =>
    have hdata := dataAttributes_of_untyped (h.untypedLeaf rfl hkind)
    rw [Place.document, body_of_leaf hkind, hdata, hcontent, h.ofPairs_value hcompound]
    simp
  | keyed =>
    have hvalue : e.value = e.content := if_neg (by simp [hkind])
    rw [Place.document, keyed_of_not_compound hcompound, hvalue, hcontent,
      h.ofPairs_value hcompound]
    rfl

end CleanAt

/-! ## The kind of a document -/

/-- The kind of the elements that a document can come from: that of the last value of a map. -/
def kindOf : Document → Element.Kind
  | .list _ => .array
  | .map entries =>
    match entries.getLast? with
    | some (_, .list _) => .array
    | some (_, .map _) => .compound
    | _ => .leaf
  | _ => .leaf

open Element in
theorem CleanAt.kindOf_document {place : Place} {e : Element} (h : CleanAt place e) :
    kindOf (place.document e) = e.kind := by
  cases hkind : e.kind with
  | array =>
    rw [h.document_of_array hkind]
    split_ifs
    · rfl
    · simp [kindOf]
  | compound =>
    rw [h.document_of_compound hkind]
    obtain ⟨c, hc⟩ : ∃ c, e.children.getLast? = some c :=
      Option.ne_none_iff_exists'.mp
        (mt List.getLast?_eq_none_iff.mp (isCompound_iff.mp (kind_eq_compound_iff.mp hkind)).1)
    have hlast : (childPairs e.children).getLast? = some (c.name, c.keyed) := by
      rw [childPairs, List.getLast?_map, hc]
      rfl
    obtain ⟨entries, hentries⟩ := c.exists_keyed_eq
    simp [kindOf, hlast, hentries]
  | leaf =>
    rw [h.document_of_leaf hkind]
    split_ifs
    · rfl
    · simp [kindOf]

/-! ## Elements up to hidden tags -/

namespace Element

mutual

/-- An element at a place without the tags that its document never shows: those of elements that
stand for themselves. -/
def untagged : Place → Element → Element
  | place, ⟨name, attributes, children, text⟩ =>
    let e : Element := ⟨name, attributes, children, text⟩
    ⟨place.tag e, attributes, untaggedAll e.inner children, text⟩

/-- The same for every element of a list. -/
def untaggedAll : Place → List Element → List Element
  | _, [] => []
  | place, e :: rest => untagged place e :: untaggedAll place rest

end

theorem untaggedAll_eq (place : Place) (children : List Element) :
    untaggedAll place children = children.map (untagged place) := by
  induction children with
  | nil => rfl
  | cons c children ih => rw [untaggedAll, ih, List.map_cons]

theorem untagged_eq (place : Place) (e : Element) :
    e.untagged place =
      ⟨place.tag e, e.attributes, e.children.map (untagged e.inner), e.text⟩ := by
  obtain ⟨name, attributes, children, text⟩ := e
  rw [untagged, untaggedAll_eq]

end Element

/-! ## Clean elements with the same document -/

section Parts

open Element

theorem attributePairs_injective : Function.Injective attributePairs := by
  refine List.map_injective_iff.mpr ?_
  rintro ⟨key, value⟩ ⟨key', value'⟩ h
  cases h
  rfl

theorem map_eq_map_of_imp {α β γ : Type} {f : α → β} {g : α → γ} {l l' : List α}
    (h : l.map f = l'.map f) (himp : ∀ a ∈ l, ∀ b ∈ l', f a = f b → g a = g b) :
    l.map g = l'.map g := by
  induction l generalizing l' with
  | nil =>
    rw [List.map_nil, eq_comm, List.map_eq_nil_iff] at h
    rw [h]
  | cons a l ih =>
    obtain ⟨b, rest, rfl, hb, hrest⟩ := List.map_eq_cons_iff.mp h.symm
    have hrestImp : ∀ x ∈ l, ∀ y ∈ rest, f x = f y → g x = g y := fun x hx y hy =>
      himp x (List.mem_cons_of_mem _ hx) y (List.mem_cons_of_mem _ hy)
    rw [List.map_cons, List.map_cons, himp a List.mem_cons_self b List.mem_cons_self hb.symm,
      ih hrest.symm hrestImp]

/-- Attributes can be told from the children behind them: only they are texts. -/
theorem parts_of_pairs {attributes attributes' : List (String × String)}
    {children children' : List Element}
    (h : attributePairs attributes ++ childPairs children =
      attributePairs attributes' ++ childPairs children') :
    attributes = attributes' ∧ childPairs children = childPairs children' := by
  let isText : String × Document → Bool := fun p => p.2.asText?.isSome
  have htexts : ∀ attributes, ∀ p ∈ attributePairs attributes, isText p = true := by
    intro attributes p hp
    obtain ⟨a, -, rfl⟩ := List.mem_map.mp hp
    rfl
  have hmaps : ∀ children, ∀ p ∈ childPairs children, ¬ isText p = true := by
    intro children p hp
    obtain ⟨c, -, rfl⟩ := List.mem_map.mp hp
    obtain ⟨entries, hentries⟩ := c.exists_keyed_eq
    simp [isText, hentries, Document.asText?]
  have hfilter := congrArg (List.filter isText) h
  simp only [List.filter_append, List.filter_eq_self.mpr (htexts _),
    List.filter_eq_nil_iff.mpr (hmaps _), List.append_nil] at hfilter
  obtain rfl := attributePairs_injective hfilter
  exact ⟨rfl, List.append_cancel_left h⟩

/-- Attributes can be told from the value behind them. -/
theorem parts_of_value {attributes attributes' : List (String × String)} {value value' : Document}
    (h : attributePairs attributes ++ [("value", value)] =
      attributePairs attributes' ++ [("value", value')]) :
    attributes = attributes' ∧ value = value' := by
  obtain ⟨hattributes, hvalue⟩ := List.append_inj' h rfl
  exact ⟨attributePairs_injective hattributes, congrArg Prod.snd (List.singleton_inj.mp hvalue)⟩

/-- The attributes of a list that stands for itself are the same for all of them. -/
theorem CleanAt.attributes_of_bare {e : Element} (h : CleanAt .body e) (hkind : e.kind = .array) :
    e.attributes = [("type", "array")] := by
  have hbare := h.bare rfl hkind
  have hdistinct := h.distinct
  have hmem := isArray_iff.mp (kind_eq_array_iff.mp hkind)
  match hattributes : e.attributes with
  | [] => simp [hattributes] at hmem
  | [a] => rw [hbare a (by simp [hattributes])]
  | a :: b :: rest =>
    have ha := hbare a (by simp [hattributes])
    have hb := hbare b (by simp [hattributes])
    simp [hattributes, ha, hb] at hdistinct

variable {place : Place} {e e' : Element}

/-- The attributes and the text of a clean element, and all that shows of its children, can be told
from its document. -/
theorem CleanAt.parts (h : CleanAt place e) (h' : CleanAt place e')
    (hdocument : place.document e = place.document e') :
    e.kind = e'.kind ∧ e.attributes = e'.attributes ∧ e.text = e'.text ∧
      e.children.map e.inner.shown = e'.children.map e'.inner.shown := by
  have hkinds : e.kind = e'.kind := by
    rw [← h.kindOf_document, hdocument, h'.kindOf_document]
  refine ⟨hkinds, ?_⟩
  cases hkind : e.kind with
  | array =>
    have hkind' := hkinds.symm.trans hkind
    have hbodies : e.attributes = e'.attributes ∧
        e.children.map body = e'.children.map body := by
      rw [h.document_of_array hkind, h'.document_of_array hkind'] at hdocument
      cases place with
      | body =>
        rw [h.attributes_of_bare hkind, h'.attributes_of_bare hkind']
        exact ⟨rfl, Document.list.inj hdocument⟩
      | keyed =>
        obtain ⟨hattributes, hlist⟩ := parts_of_value (Document.map.inj hdocument)
        exact ⟨hattributes, Document.list.inj hlist⟩
    have hshown : e.children.map Place.body.shown = e'.children.map Place.body.shown :=
      map_eq_map_of_imp hbodies.2 fun c _ c' _ hc => Prod.ext rfl hc
    rw [inner_eq, inner_eq, if_pos hkind, if_pos hkind', h.noText (by simp [hkind]),
      h'.noText (by simp [hkind'])]
    exact ⟨hbodies.1, rfl, hshown⟩
  | compound =>
    have hkind' := hkinds.symm.trans hkind
    rw [h.document_of_compound hkind, h'.document_of_compound hkind'] at hdocument
    obtain ⟨hattributes, hchildren⟩ := parts_of_pairs (Document.map.inj hdocument)
    rw [inner_eq, inner_eq, if_neg (by simp [hkind]), if_neg (by simp [hkind']),
      h.noText (by simp [hkind]), h'.noText (by simp [hkind'])]
    exact ⟨hattributes, rfl, hchildren⟩
  | leaf =>
    have hkind' := hkinds.symm.trans hkind
    have hnone := (kind_eq_leaf_iff.mp hkind).1
    have hnone' := (kind_eq_leaf_iff.mp hkind').1
    rw [hnone, hnone', List.map_nil, List.map_nil]
    rw [h.document_of_leaf hkind, h'.document_of_leaf hkind'] at hdocument
    split_ifs at hdocument with hbare hbare' hbare'
    · exact ⟨hbare.2.trans hbare'.2.symm, Document.text.inj hdocument, rfl⟩
    · obtain ⟨hattributes, htext⟩ := parts_of_value (Document.map.inj hdocument)
      exact ⟨hattributes, Document.text.inj htext, rfl⟩

/-- Clean elements of which the same shows are equal up to hidden tags. -/
theorem untagged_eq_of_shown_eq (e : Element) {place : Place} {e' : Element} (h : Clean place e)
    (h' : Clean place e') (hshown : place.shown e = place.shown e') :
    e.untagged place = e'.untagged place := by
  induction e using Element.induction generalizing place e' with
  | step e ih =>
    obtain ⟨htag, hdocument⟩ := Prod.mk.inj hshown
    obtain ⟨hkind, hattributes, htext, hchildren⟩ := h.here.parts h'.here hdocument
    have hinner : e.inner = e'.inner := by rw [inner_eq, inner_eq, hkind]
    have hinside := h'.inside
    rw [← hinner] at hchildren hinside
    have hall : e.children.map (untagged e.inner) = e'.children.map (untagged e.inner) :=
      map_eq_map_of_imp hchildren fun c hc c' hc' hshown =>
        ih c hc (h.inside c hc) (hinside c' hc') hshown
    rw [untagged_eq, untagged_eq, htag, hattributes, htext, ← hinner, hall]

end Parts

/-- Clean trees with the same document are equal up to the tag of the root and those of the members
of lists. In particular they are of one kind and have the same attributes. -/
theorem clean_distinguished {e e' : Element} (h : Clean .body e) (h' : Clean .body e')
    (hbody : e.body = e'.body) :
    e.untagged .body = e'.untagged .body ∧ e.kind = e'.kind ∧ e.attributes = e'.attributes := by
  obtain ⟨hkind, hattributes, -⟩ := h.here.parts h'.here hbody
  exact ⟨untagged_eq_of_shown_eq e h h' (Prod.ext rfl hbody), hkind, hattributes⟩

/-- Two maps with a list in them that have other tags at the root and in the list. -/
theorem clean_distinguished_lists :
    let tree : String → String → Element := fun root member =>
      ⟨root, [("id", " 7 ")],
        [⟨"l", [("n", "1"), ("type", "array")], [⟨member, [("k", "")], [], "t"⟩], ""⟩], ""⟩
    Clean .body (tree "r" "x") ∧ Clean .body (tree "s" "y") ∧
      (tree "r" "x").body = (tree "s" "y").body ∧
      (tree "r" "x").untagged .body = (tree "s" "y").untagged .body := by
  intro tree
  have hclean : Clean .body (tree "r" "x") ∧ Clean .body (tree "s" "y") := by
    constructor <;>
      exact .mk (by constructor <;> decide) (List.forall_mem_singleton.mpr
        (.mk (by constructor <;> decide) (List.forall_mem_singleton.mpr
          (.mk (by constructor <;> decide) (by simp)))))
  have hbody : (tree "r" "x").body = (tree "s" "y").body := by rfl
  exact ⟨hclean.1, hclean.2, hbody, (clean_distinguished hclean.1 hclean.2 hbody).1⟩

end ApiClient.Xml
