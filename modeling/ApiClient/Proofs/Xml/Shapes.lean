import Mathlib.Tactic.Common
import ApiClient.Proofs.Entries
import ApiClient.Xml.Conversion

/-!
# The document of an element by its kind

* `Element.induction`: what holds of an element if it holds of its children;
* `Element.Kind`, `Element.kind`: lists, maps of children, and elements without any;
* `body_of_array`, `body_of_compound`, `body_of_leaf`, `keyed_of_compound`,
  `keyed_of_not_compound`: the document of each kind, with the pairs that its map is made of;
* `Place`, `Place.document`, `Place.shown`: an element stands for itself or under its name, which
  then shows beside its document.
-/

namespace ApiClient.Xml

namespace Element

/-- What holds of an element if it holds of its children holds of every element. -/
@[elab_as_elim]
theorem induction {P : Element → Prop}
    (step : ∀ e : Element, (∀ c ∈ e.children, P c) → P e) (e : Element) : P e :=
  @Element.rec P (fun children => ∀ c ∈ children, P c)
    (fun name attributes children text h => step ⟨name, attributes, children, text⟩ h)
    (List.forall_mem_nil _) (fun _ _ hc hrest => List.forall_mem_cons.mpr ⟨hc, hrest⟩) e

/-! ## Kinds -/

/-- The kinds of elements. -/
inductive Kind where
  /-- A list of its children. -/
  | array
  /-- A map of its children. -/
  | compound
  /-- An element without children that is no list. -/
  | leaf
  deriving DecidableEq, Repr

/-- The kind of an element. -/
def kind (e : Element) : Kind :=
  if e.isArray then .array else if e.isCompound then .compound else .leaf

theorem isArray_iff {e : Element} : e.isArray = true ↔ ("type", "array") ∈ e.attributes := by
  simp only [isArray, List.any_eq_true, Bool.and_eq_true, beq_iff_eq]
  constructor
  · rintro ⟨⟨key, value⟩, hmem, rfl, rfl⟩
    exact hmem
  · intro h
    exact ⟨_, h, rfl, rfl⟩

theorem isCompound_iff {e : Element} :
    e.isCompound = true ↔ e.children ≠ [] ∧ ¬ e.isArray = true := by
  simp [isCompound]

theorem kind_eq_array_iff {e : Element} : e.kind = .array ↔ e.isArray = true := by
  unfold kind
  split_ifs with h₁ h₂ <;> simp [h₁]

theorem kind_eq_compound_iff {e : Element} : e.kind = .compound ↔ e.isCompound = true := by
  unfold kind
  split_ifs with h₁ h₂
  · simp [isCompound_iff, h₁]
  · simp [h₂]
  · simp [h₂]

theorem kind_eq_leaf_iff {e : Element} :
    e.kind = .leaf ↔ e.children = [] ∧ ¬ e.isArray = true := by
  unfold kind
  split_ifs with h₁ h₂
  · simp [h₁]
  · simp [(isCompound_iff.mp h₂).1]
  · simpa [isCompound_iff, h₁] using h₂

theorem hasData_iff {e : Element} : e.hasData = true ↔ e.dataAttributes ≠ [] := by
  simp [hasData, dataAttributes]

/-! ## Maps of pairs -/

/-- The pairs of attributes. -/
def attributePairs (attributes : List (String × String)) : List (String × Document) :=
  attributes.map fun a => (a.1, .text a.2)

/-- The pairs of elements that are stored under their names. -/
def childPairs (children : List Element) : List (String × Document) :=
  children.map fun c => (c.name, c.keyed)

theorem keys_attributePairs (attributes : List (String × String)) :
    Entries.keys (attributePairs attributes) = attributes.map (·.1) := by
  simp [Entries.keys, attributePairs]

theorem keys_childPairs (children : List Element) :
    Entries.keys (childPairs children) = children.map (·.name) := by
  simp [Entries.keys, childPairs]

theorem bodies_eq (children : List Element) : bodies children = children.map body := by
  induction children with
  | nil => rfl
  | cons c children ih => rw [bodies, ih, List.map_cons]

theorem addChildren_ofPairs (children : List Element) (pairs : List (String × Document)) :
    addChildren children (Entries.ofPairs pairs) =
      Entries.ofPairs (pairs ++ childPairs children) := by
  induction children generalizing pairs with
  | nil => rw [addChildren, childPairs, List.map_nil, List.append_nil]
  | cons c children ih =>
    obtain ⟨name, attributes, inside, text⟩ := c
    rw [addChildren, ← Entries.ofPairs_concat, ih, List.append_assoc]
    rfl

/-! ## Documents by kind -/

theorem body_of_array {e : Element} (h : e.kind = .array) :
    e.body = .list (e.children.map body) := by
  rw [kind_eq_array_iff] at h
  obtain ⟨name, attributes, children, text⟩ := e
  simp only [body, h, if_true, bodies_eq]

theorem body_of_compound {e : Element} (h : e.kind = .compound) :
    e.body =
      .map (Entries.ofPairs (attributePairs e.dataAttributes ++ childPairs e.children)) := by
  rw [kind_eq_compound_iff] at h
  have ha := (isCompound_iff.mp h).2
  obtain ⟨name, attributes, children, text⟩ := e
  simp only [body, h, ha, if_true, if_false, attributeEntries, Bool.false_eq_true]
  exact congrArg _ (addChildren_ofPairs _ _)

theorem body_of_leaf {e : Element} (h : e.kind = .leaf) :
    e.body =
      if e.dataAttributes = [] then e.content
      else .map (Entries.ofPairs (attributePairs e.dataAttributes ++ [("value", e.content)])) := by
  obtain ⟨hc, ha⟩ := kind_eq_leaf_iff.mp h
  have hn : ¬ e.isCompound = true := fun h' => (isCompound_iff.mp h').1 hc
  have hd := hasData_iff (e := e)
  obtain ⟨name, attributes, children, text⟩ := e
  by_cases hdata : dataAttributes ⟨name, attributes, children, text⟩ = []
  · have hno := mt hd.mp (not_not_intro hdata)
    simp only [body, ha, hn, hno, hdata, if_false, if_true, Bool.false_eq_true]
  · simp only [body, ha, hn, hd.mpr hdata, hdata, if_false, if_true, Bool.false_eq_true]
    rw [Entries.ofPairs_concat]
    rfl

theorem keyed_of_compound {e : Element} (h : e.kind = .compound) : e.keyed = e.body := by
  have hb := body_of_compound h
  rw [kind_eq_compound_iff] at h
  rw [hb]
  obtain ⟨name, attributes, children, text⟩ := e
  simp only [keyed, h, if_true]
  exact congrArg _ (addChildren_ofPairs _ _)

/-- What is stored beside the attributes of an element that is no map of its children. -/
def value (e : Element) : Document :=
  if e.kind = .array then .list (e.children.map body) else e.content

theorem keyed_of_not_compound {e : Element} (h : e.kind ≠ .compound) :
    e.keyed = .map (Entries.ofPairs (attributePairs e.attributes ++ [("value", e.value)])) := by
  have hn : ¬ e.isCompound = true := mt kind_eq_compound_iff.mpr h
  have hv : e.value = if e.isArray then .list (bodies e.children) else e.content := by
    simp only [value, kind_eq_array_iff, bodies_eq]
  rw [Entries.ofPairs_concat, hv]
  obtain ⟨name, attributes, children, text⟩ := e
  simp only [keyed, hn, Bool.false_eq_true, if_false]
  rfl

/-- What is stored under a name is a map. -/
theorem exists_keyed_eq (e : Element) : ∃ entries, e.keyed = .map entries := by
  by_cases h : e.kind = .compound
  · exact ⟨_, (keyed_of_compound h).trans (body_of_compound h)⟩
  · exact ⟨_, keyed_of_not_compound h⟩

end Element

/-! ## Places -/

/-- Where an element stands. -/
inductive Place where
  /-- For itself, as the root and the members of a list do. -/
  | body
  /-- Under its name, as the children in a map do. -/
  | keyed
  deriving DecidableEq, Repr

/-- The document of an element at a place. -/
def Place.document : Place → Element → Document
  | .body => Element.body
  | .keyed => Element.keyed

/-- The part of a tag that shows at a place. -/
def Place.tag : Place → Element → String
  | .body, _ => ""
  | .keyed, e => e.name

/-- Everything that shows of an element at a place. -/
def Place.shown (place : Place) (e : Element) : String × Document := (place.tag e, place.document e)

/-- Where the children of an element stand. -/
def Element.inner (e : Element) : Place := if e.isArray then .body else .keyed

theorem Element.inner_eq (e : Element) :
    e.inner = if e.kind = .array then .body else .keyed := by
  simp only [inner, kind_eq_array_iff]

end ApiClient.Xml
