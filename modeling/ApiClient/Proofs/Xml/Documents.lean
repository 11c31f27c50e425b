import ApiClient.Proofs.Document
import ApiClient.Proofs.Xml.Merging
import ApiClient.Proofs.Xml.Reading

/-!
# The documents of texts

* `nodup_attributes`, `Element.Distinct`, `distinct_of_parse`: the attributes of a tree that has
  been read have distinct names;
* `Element.nesting_le`: how deep lists and maps are nested in the documents of an element;
* `Placed`, `Element.placed`: where lists stand in the documents of an element;
* `document_of_text`: what the document of a text looks like.
-/

namespace ApiClient.Xml

/-! ## Attributes of a tag -/

theorem Tag.lookup_of_readAttribute {size : Nat} {seen : List (List Char × Nat)} {c : Char}
    {s : List Char} {found : Tag.Attribute} (h : Tag.readAttribute size seen c s = .ok found) :
    seen.lookup found.key = none := by
  simp only [Tag.readAttribute] at h
  split at h
  · cases h
  · obtain ⟨-, h⟩ := check_eq_ok_iff.mp h
    split at h
    · cases h
    · next hseen =>
      obtain ⟨⟨value, rest⟩, -, h⟩ := bind_eq_ok_iff.mp h
      cases h
      exact hseen

/-- Attributes have distinct names, and none of the names that were seen before. -/
theorem Tag.nodup_attributesIn {size rounds : Nat} {seen : List (List Char × Nat)} {s : List Char}
    {attributes : List (String × String)}
    (h : Tag.attributesIn size rounds seen s = .ok attributes) :
    (attributes.map (·.1)).Nodup ∧ ∀ a ∈ attributes, seen.lookup a.1.toList = none := by
  induction rounds generalizing seen s attributes with
  | zero =>
    cases h
    simp
  | succ rounds ih =>
    rw [Tag.attributesIn] at h
    split at h
    · cases h
      simp
    · obtain ⟨found, hfound, h⟩ := bind_eq_ok_iff.mp h
      obtain ⟨value, -, h⟩ := bind_eq_ok_iff.mp h
      obtain ⟨more, hmore, h⟩ := bind_eq_ok_iff.mp h
      cases h
      obtain ⟨hnodup, hnew⟩ := ih hmore
      have hkey := Tag.lookup_of_readAttribute hfound
      -- the key just read is among those that the attributes behind it may not have
      have hne : ∀ a ∈ more, a.1.toList ≠ found.key ∧ seen.lookup a.1.toList = none := by
        intro a ha
        have hlookup := hnew a ha
        rw [List.lookup_cons] at hlookup
        split at hlookup
        · cases hlookup
        · next hbeq => exact ⟨by simpa using hbeq, hlookup⟩
      refine ⟨?_, List.forall_mem_cons.mpr ⟨by simpa using hkey, fun a ha => (hne a ha).2⟩⟩
      rw [List.map_cons, List.nodup_cons]
      refine ⟨fun hmem => ?_, hnodup⟩
      obtain ⟨a, ha, heq⟩ := List.mem_map.mp hmem
      exact (hne a ha).1 (by rw [heq, String.toList_ofList])

theorem Tag.nodup_attributes {tag : Tag} {attributes : List (String × String)}
    (h : tag.attributes = .ok attributes) : (attributes.map (·.1)).Nodup :=
  (Tag.nodup_attributesIn h).1

/-! ## Trees that have been read -/

/-- The attributes of an element and of everything in it have distinct names. -/
inductive Element.Distinct : Element → Prop
  | mk {e : Element} (here : (e.attributes.map (·.1)).Nodup)
      (inside : ∀ c ∈ e.children, Element.Distinct c) : Element.Distinct e

mutual

theorem Balanced.distinct {events : List Event} {e : Element} : Balanced events e → e.Distinct
  | .empty ha => .mk (Tag.nodup_attributes ha) (by simp)
  | .pair ha inside => .mk (Tag.nodup_attributes ha) inside.distinct

theorem Content.distinct {events : List Event} {children : List Element} {text : String} :
    Content events children text → ∀ c ∈ children, c.Distinct
  | .nil => by simp
  | .chars _ rest => rest.distinct
  | .child first rest => List.forall_mem_cons.mpr ⟨first.distinct, rest.distinct⟩

end

namespace Element

theorem distinct_of_parse {s : List Char} {e : Element} (h : Element.parse s = .ok e) :
    e.Distinct := by
  obtain ⟨events, hspells⟩ := spells_of_parse h
  obtain ⟨before, inner, after, -, -, hinner, -⟩ := hspells.enclosed
  exact hinner.distinct

/-! ## Nesting -/

theorem depth_eq (e : Element) : e.depth = depths e.children + 1 := by
  obtain ⟨name, attributes, children, text⟩ := e
  rw [depth]

theorem depth_le_depths {c : Element} {children : List Element} (h : c ∈ children) :
    c.depth ≤ depths children := by
  induction children with
  | nil => cases h
  | cons first children ih =>
    rw [depths]
    rcases List.mem_cons.mp h with rfl | h
    · exact Nat.le_max_left _ _
    · exact (ih h).trans (Nat.le_max_right _ _)

theorem nesting_of_mem_attributePairs {attributes : List (String × String)}
    {p : String × Document} (h : p ∈ attributePairs attributes) : p.2.nesting = 0 := by
  obtain ⟨a, -, rfl⟩ := List.mem_map.mp h
  rfl

/-- A map of attributes and other pairs is nested one deeper than the other pairs. -/
theorem nesting_map_le (attributes : List (String × String)) {rest : List (String × Document)}
    {n : Nat} (h : ∀ p ∈ rest, p.2.nesting ≤ n) :
    (Document.map (Entries.ofPairs (attributePairs attributes ++ rest))).nesting ≤ n + 1 := by
  rw [Document.nesting_map_le_iff]
  intro p hp
  rcases List.mem_append.mp (Entries.mem_of_mem_ofPairs hp) with hp | hp
  · rw [nesting_of_mem_attributePairs hp]
    exact Nat.zero_le n
  · exact h p hp

theorem nesting_content (e : Element) : e.content.nesting = 0 := rfl

/-- The documents of an element are nested three halves as deep as it is at most, with one more
under its name if that is no whole number: a list under a name is in a map of its own. -/
theorem nesting_le (e : Element) :
    e.body.nesting ≤ 3 * e.depth / 2 ∧ e.keyed.nesting ≤ (3 * e.depth + 1) / 2 := by
  induction e using Element.induction with
  | step e ih =>
    rw [depth_eq]
    have hbodies : ∀ d ∈ e.children.map body, d.nesting ≤ 3 * depths e.children / 2 := by
      intro d hd
      obtain ⟨c, hc, rfl⟩ := List.mem_map.mp hd
      have hle := (ih c hc).1
      have hdepth := depth_le_depths hc
      omega
    have hlist := Document.nesting_list_le_iff.mpr hbodies
    cases hkind : e.kind with
    | array =>
      have hvalue : ∀ p ∈ [("value", e.value)], p.2.nesting ≤ 3 * depths e.children / 2 + 1 := by
        rw [value, if_pos hkind]
        exact List.forall_mem_singleton.mpr hlist
      rw [body_of_array hkind, keyed_of_not_compound (by simp [hkind])]
      have hmap := nesting_map_le e.attributes hvalue
      omega
    | compound =>
      have hchildren : ∀ p ∈ childPairs e.children,
          p.2.nesting ≤ (3 * depths e.children + 1) / 2 := by
        intro p hp
        obtain ⟨c, hc, rfl⟩ := List.mem_map.mp hp
        have hle := (ih c hc).2
        have hdepth := depth_le_depths hc
        simp only
        omega
      have hmap := nesting_map_le e.dataAttributes hchildren
      rw [keyed_of_compound hkind, body_of_compound hkind]
      omega
    | leaf =>
      have hcontent : ∀ p ∈ [("value", e.content)], p.2.nesting ≤ 0 :=
        List.forall_mem_singleton.mpr e.nesting_content.le
      have hvalue : e.value = e.content := if_neg (by simp [hkind])
      rw [body_of_leaf hkind, keyed_of_not_compound (by simp [hkind]), hvalue]
      have hkeyed := nesting_map_le e.attributes hcontent
      have hbody := nesting_map_le e.dataAttributes hcontent
      have hzero := e.nesting_content
      constructor
      · split_ifs <;> omega
      · omega

end Element

/-! ## Where lists stand -/

/-- A document is not null, and if it is a map, its keys are distinct and every list in it stands
under `value` beside the type of a list. -/
def Placed : Document → Prop
  | .null => False
  | .text _ => True
  | .list _ => True
  | .map entries => (Entries.keys entries).Nodup ∧
      ∀ key items, (key, Document.list items) ∈ entries →
        key = "value" ∧ ("type", .text "array") ∈ entries

namespace Element

/-- Maps without lists in them, whose other values are well placed. -/
theorem placed_map {attributes : List (String × String)} {rest : List (String × Document)}
    (hlist : ∀ key items, (key, Document.list items) ∈ rest →
      key = "value" ∧
        ("type", .text "array") ∈ Entries.ofPairs (attributePairs attributes ++ rest))
    (hrest : ∀ p ∈ rest, ∀ part, Document.Holds p.2 part → Placed part) :
    ∀ part, Document.Holds (.map (Entries.ofPairs (attributePairs attributes ++ rest))) part →
      Placed part := by
  refine Document.forall_holds_map_iff.mpr ⟨⟨Entries.nodup_keys_ofPairs _, ?_⟩, ?_⟩
  · intro key items hmem
    rcases List.mem_append.mp (Entries.mem_of_mem_ofPairs hmem) with hp | hp
    · obtain ⟨a, -, ha⟩ := List.mem_map.mp hp
      cases ha
    · exact hlist key items hp
  · intro p hp
    rcases List.mem_append.mp (Entries.mem_of_mem_ofPairs hp) with hp | hp
    · obtain ⟨a, -, rfl⟩ := List.mem_map.mp hp
      exact Document.forall_holds_text_iff.mpr trivial
    · exact hrest p hp

/-- The attribute that makes an element a list is found in its map. -/
theorem mem_type_of_array {e : Element} (hkind : e.kind = .array)
    (hnodup : (e.attributes.map (·.1)).Nodup) (value : Document) :
    ("type", .text "array") ∈
      Entries.ofPairs (attributePairs e.attributes ++ [("value", value)]) := by
  obtain ⟨before, after, hsplit⟩ :=
    List.append_of_mem (isArray_iff.mp (kind_eq_array_iff.mp hkind))
  have hlast : "type" ∉ after.map (·.1) := by
    rw [hsplit, List.map_append, List.nodup_append, List.map_cons, List.nodup_cons] at hnodup
    exact hnodup.2.1.1
  exact Entries.mem_of_find? (find?_attribute hsplit hlast (by simp [Entries.keys]))

/-- Everything in the documents of an element is well placed. -/
theorem placed {e : Element} (h : e.Distinct) :
    (∀ part, Document.Holds e.body part → Placed part) ∧
      ∀ part, Document.Holds e.keyed part → Placed part := by
  induction h with
  | @mk e hnodup _ ih =>
    have hlist : ∀ part, Document.Holds (.list (e.children.map body)) part → Placed part := by
      refine Document.forall_holds_list_iff.mpr ⟨trivial, ?_⟩
      rintro d hd
      obtain ⟨c, hc, rfl⟩ := List.mem_map.mp hd
      exact (ih c hc).1
    have hcontent : ∀ part, Document.Holds e.content part → Placed part :=
      Document.forall_holds_text_iff.mpr trivial
    cases hkind : e.kind with
    | array =>
      rw [body_of_array hkind, keyed_of_not_compound (by simp [hkind]), value, if_pos hkind]
      refine ⟨hlist, placed_map ?_ (List.forall_mem_singleton.mpr hlist)⟩
      intro key items hmem
      exact ⟨congrArg Prod.fst (List.mem_singleton.mp hmem), mem_type_of_array hkind hnodup _⟩
    | compound =>
      rw [keyed_of_compound hkind, body_of_compound hkind, and_self]
      refine placed_map ?_ ?_
      · intro key items hmem
        obtain ⟨c, -, hc⟩ := List.mem_map.mp hmem
        obtain ⟨entries, hentries⟩ := c.exists_keyed_eq
        cases hentries.symm.trans (congrArg Prod.snd hc)
      · intro p hp
        obtain ⟨c, hc, rfl⟩ := List.mem_map.mp hp
        exact (ih c hc).2
    | leaf =>
      have hvalue : e.value = e.content := if_neg (by simp [hkind])
      have hno : ∀ attributes key items, (key, Document.list items) ∈ [("value", e.content)] →
          key = "value" ∧ ("type", .text "array") ∈
            Entries.ofPairs (attributePairs attributes ++ [("value", e.content)]) := by
        intro attributes key items hmem
        cases congrArg Prod.snd (List.mem_singleton.mp hmem)
      have hmap := fun attributes =>
        placed_map (hno attributes) (List.forall_mem_singleton.mpr hcontent)
      rw [body_of_leaf hkind, keyed_of_not_compound (by simp [hkind]), hvalue]
      refine ⟨?_, hmap _⟩
      split_ifs
      · exact hcontent
      · exact hmap _

end Element

/-! ## Texts -/

/-- The document of a text is a map with one key. Nothing in it is null, the keys of every map are
distinct, and lists stand under the one key, in lists, or as the value beside the type of a list.
It is nested hardly more than three halves as deep as the tree of the text. -/
theorem document_of_text {text : String} {d : Document} (h : parse text = .ok d) :
    ∃ e key inner, Element.parse text.toList = .ok e ∧ e.depth ≤ 128 ∧
      d = .map [(key, inner)] ∧ (key = "error" ∨ key = "response") ∧
      (∀ part, Document.Holds d part → part ≠ .null) ∧
      (∀ entries, Document.Holds d (.map entries) → (Entries.keys entries).Nodup) ∧
      (∀ entries key items, Document.Holds inner (.map entries) →
        (key, Document.list items) ∈ entries →
        key = "value" ∧ ("type", .text "array") ∈ entries) ∧
      d.nesting ≤ 1 + 3 * e.depth / 2 ∧ d.nesting ≤ 193 := by
  obtain ⟨e, he, rfl⟩ := map_eq_ok_iff.mp h
  obtain ⟨events, hspells⟩ := Element.spells_of_parse he
  have hdepth : e.depth ≤ 128 := hspells.depth_le
  have hplaced := (Element.placed (Element.distinct_of_parse he)).1
  have hdocument : e.document = .map [(e.rootKey, e.body)] := rfl
  have hkey : e.rootKey = "error" ∨ e.rootKey = "response" := by
    rw [Element.rootKey]
    split_ifs
    · exact .inl rfl
    · exact .inr rfl
  have hnesting : e.document.nesting ≤ 3 * e.depth / 2 + 1 := by
    rw [hdocument, Document.nesting_map_le_iff]
    exact List.forall_mem_singleton.mpr e.nesting_le.1
  refine ⟨e, e.rootKey, e.body, he, hdepth, hdocument, hkey, ?_, ?_, ?_, by omega, by omega⟩
  · rw [hdocument]
    refine Document.forall_holds_map_iff.mpr ⟨nofun, List.forall_mem_singleton.mpr ?_⟩
    rintro part hp rfl
    exact hplaced _ hp
  · intro entries hp
    rw [hdocument] at hp
    cases hp with
    | self => simp [Entries.keys]
    | value hmem inside =>
      obtain rfl := List.mem_singleton.mp hmem
      exact (hplaced _ inside).1
  · intro entries key items hp
    exact (hplaced _ hp).2 key items

/-- A list in a list under a name, which is as deep as the bound allows. -/
theorem document_of_text_lists :
    let text := "<r><a type='array'><b type='array'/></a></r>"
    let d := Document.map [("response", .map [("a",
      .map [("type", .text "array"), ("value", .list [.list []])])])]
    parse text = .ok d ∧ (∀ part, Document.Holds d part → part ≠ .null) ∧
      ∃ e, Element.parse text.toList = .ok e ∧ e.depth = 3 ∧ d.nesting ≤ 1 + 3 * e.depth / 2 ∧
        d.nesting = 5 := by
  intro text d
  have hevents : Scanner.events "<r><a type='array'><b type='array'/></a></r>".toList =
      ([.start ⟨['r'], []⟩, .start ⟨['a'], " type='array'".toList⟩,
        .empty ⟨['b'], " type='array'".toList⟩, .stop ['a'], .stop ['r']], none) := rfl
  have hparse : Element.parse text.toList = .ok ⟨"r", [], [⟨"a", [("type", "array")],
      [⟨"b", [("type", "array")], [], ""⟩], ""⟩], ""⟩ :=
    (Element.parse_of_events hevents).trans rfl
  have h : parse text = .ok d := by
    rw [parse, hparse]
    rfl
  obtain ⟨e, key, inner, he, -, -, -, hnull, -, -, hnesting, -⟩ := document_of_text h
  refine ⟨h, hnull, e, he, ?_, hnesting, rfl⟩
  rw [hparse] at he
  cases he
  rfl

end ApiClient.Xml
