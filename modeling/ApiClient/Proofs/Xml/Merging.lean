import ApiClient.Proofs.Xml.Shapes

/-!
# Attributes and children in one map

* `keys_attributes_append`, `find?_attribute`: the keys and the values of attributes in front of
  other pairs;
* `compound_merges_in_order`: the map of an element with children has its attributes first and its
  children behind them, each key at its first place and with its last value, and a child without
  children of its own keeps its content beside its attributes.
-/

namespace ApiClient.Xml.Element

theorem dataAttributes_eq (e : Element) :
    e.dataAttributes = e.attributes.filter fun a => a.1 ≠ "type" := by
  simp only [dataAttributes, typeKey, bne, Bool.beq_eq_decide_eq, decide_not]

/-! ## Attributes in front of other pairs -/

section InFront

variable {attributes before after : List (String × String)} {key value : String}
  {rest : List (String × Document)}

theorem keys_attributes_append (attributes : List (String × String))
    (rest : List (String × Document)) :
    Entries.keys (Entries.ofPairs (attributePairs attributes ++ rest)) =
      (attributes.map (·.1) ++ Entries.keys rest).eraseDups := by
  rw [Entries.keys_ofPairs, Entries.keys_append, keys_attributePairs]

/-- A key that does not come again has the text of its attribute. -/
theorem find?_attribute (h : attributes = before ++ (key, value) :: after)
    (hafter : key ∉ after.map (·.1)) (hrest : key ∉ Entries.keys rest) :
    Entries.find? key (Entries.ofPairs (attributePairs attributes ++ rest)) =
      some (.text value) := by
  have hsplit : attributePairs attributes ++ rest =
      attributePairs before ++ (key, .text value) :: (attributePairs after ++ rest) := by
    rw [h]
    simp [attributePairs]
  have hlast : key ∉ Entries.keys (attributePairs after ++ rest) := by
    rw [Entries.keys_append, keys_attributePairs]
    exact fun hmem => (List.mem_append.mp hmem).elim hafter hrest
  rw [hsplit]
  exact Entries.find?_ofPairs hlast _ _

end InFront

/-- A child that is not behind another one of its name has its own document. -/
theorem find?_child {children before after : List Element} {c : Element}
    (h : children = before ++ c :: after) (hafter : c.name ∉ after.map (·.name))
    (pairs : List (String × Document)) :
    Entries.find? c.name (Entries.ofPairs (pairs ++ childPairs children)) = some c.keyed := by
  have hsplit : pairs ++ childPairs children =
      (pairs ++ childPairs before) ++ (c.name, c.keyed) :: childPairs after := by
    rw [h]
    simp [childPairs]
  have hlast : c.name ∉ Entries.keys (childPairs after) := by
    rw [keys_childPairs]
    exact hafter
  rw [hsplit]
  exact Entries.find?_ofPairs hlast _ _

/-! ## The order of a merged map -/

/-- The document of an element with children is a map of its attributes and its children, in this
order, each key at its first place and with its last value. Every child without children of its own
is a map of its attributes with its content among them or behind them. -/
theorem compound_merges_in_order {e : Element} (hchildren : e.children ≠ [])
    (harray : ("type", "array") ∉ e.attributes) :
    (∃ entries, e.body = .map entries ∧ e.keyed = .map entries ∧ (Entries.keys entries).Nodup ∧
      Entries.keys entries = ((e.attributes.filter fun a => a.1 ≠ "type").map (·.1) ++
        e.children.map (·.name)).eraseDups ∧
      (∀ before c after, e.children = before ++ c :: after → c.name ∉ after.map (·.name) →
        Entries.find? c.name entries = some c.keyed) ∧
      ∀ before key value after, (e.attributes.filter fun a => a.1 ≠ "type") =
          before ++ (key, value) :: after → key ∉ after.map (·.1) →
        key ∉ e.children.map (·.name) → Entries.find? key entries = some (.text value)) ∧
    ∀ c ∈ e.children, c.children = [] ∨ ("type", "array") ∈ c.attributes →
      ∃ entries, c.keyed = .map entries ∧ (Entries.keys entries).Nodup ∧
        Entries.keys entries = (c.attributes.map (·.1) ++ ["value"]).eraseDups ∧
        Entries.find? "value" entries = some
          (if ("type", "array") ∈ c.attributes then .list (c.children.map body)
            else .text (Text.trim c.text)) ∧
        ∀ before key value after, c.attributes = before ++ (key, value) :: after →
          key ∉ after.map (·.1) → key ≠ "value" →
          Entries.find? key entries = some (.text value) := by
  have hkind : e.kind = .compound :=
    kind_eq_compound_iff.mpr (isCompound_iff.mpr ⟨hchildren, mt isArray_iff.mp harray⟩)
  refine ⟨?_, ?_⟩
  · rw [keyed_of_compound hkind, body_of_compound hkind, dataAttributes_eq]
    refine ⟨_, rfl, rfl, Entries.nodup_keys_ofPairs _, ?_, ?_, ?_⟩
    · rw [keys_attributes_append, keys_childPairs]
    · intro before c after hsplit hlast
      exact find?_child hsplit hlast _
    · intro before key value after hsplit hlast hno
      refine find?_attribute hsplit hlast ?_
      rw [keys_childPairs]
      exact hno
  · intro c _ hc
    have hcollapses : c.kind ≠ .compound := by
      rw [ne_eq, kind_eq_compound_iff, isCompound_iff, isArray_iff]
      exact fun h => hc.elim h.1 h.2
    rw [keyed_of_not_compound hcollapses]
    refine ⟨_, rfl, Entries.nodup_keys_ofPairs _, keys_attributes_append _ _, ?_, ?_⟩
    · have hvalue : c.value = if ("type", "array") ∈ c.attributes then .list (c.children.map body)
          else .text (Text.trim c.text) := by
        simp only [value, kind_eq_array_iff, isArray_iff, content]
      rw [← hvalue]
      exact Entries.find?_ofPairs List.not_mem_nil _ _
    · intro before key value after hsplit hlast hne
      exact find?_attribute hsplit hlast (by simpa [Entries.keys] using hne)

/-- An attribute with the name of two children, and a child with an attribute `value` in front of
another one. -/
theorem compound_merges_in_order_crew :
    let first : Element := ⟨"m", [], [], "a"⟩
    let ship : Element := ⟨"ship", [("value", "v"), ("class", " c ")], [], " b "⟩
    let last : Element := ⟨"m", [("type", "array")], [⟨"x", [], [], "y"⟩], ""⟩
    let crew : Element :=
      ⟨"crew", [("m", "x"), ("type", "t"), ("id", " 7 ")], [first, ship, last], "\n"⟩
    crew.children ≠ [] ∧ ("type", "array") ∉ crew.attributes ∧
      ∃ entries inShip inLast, crew.body = .map entries ∧
        Entries.keys entries = ["m", "id", "ship"] ∧
        Entries.find? "m" entries = some (.map inLast) ∧
        Entries.find? "id" entries = some (.text " 7 ") ∧
        Entries.find? "ship" entries = some (.map inShip) ∧
        Entries.keys inShip = ["value", "class"] ∧
        Entries.find? "value" inShip = some (.text "b") ∧
        Entries.find? "class" inShip = some (.text " c ") ∧
        Entries.keys inLast = ["type", "value"] ∧
        Entries.find? "value" inLast = some (.list [.text "y"]) := by
  intro first ship last crew
  have hchildren : crew.children ≠ [] := List.cons_ne_nil _ _
  have harray : ("type", "array") ∉ crew.attributes := by decide
  obtain ⟨⟨entries, hbody, -, -, hkeys, hchild, hattribute⟩, hcollapsed⟩ :=
    compound_merges_in_order hchildren harray
  obtain ⟨inShip, hship, -, hshipKeys, hshipValue, hshipAttribute⟩ :=
    hcollapsed ship (by simp [crew]) (.inl rfl)
  obtain ⟨inLast, hlast, -, hlastKeys, hlastValue, -⟩ :=
    hcollapsed last (by simp [crew]) (.inr List.mem_cons_self)
  refine ⟨hchildren, harray, entries, inShip, inLast, hbody, hkeys.trans (by decide), ?_, ?_, ?_,
    hshipKeys.trans (by decide), ?_, ?_, hlastKeys.trans (by decide), ?_⟩
  · rw [← hlast]
    exact hchild [first, ship] last [] rfl (by decide)
  · exact hattribute [("m", "x")] "id" " 7 " [] rfl (by decide) (by decide)
  · rw [← hship]
    exact hchild [first] ship [last] rfl (by decide)
  · have htrim : Text.trim " b " = "b" := by decide
    rw [hshipValue, if_neg (by decide), ← htrim]
  · exact hshipAttribute [("value", "v")] "class" " c " [] rfl (by decide) (by decide)
  · have htrim : Text.trim "y" = "y" := by decide
    rw [hlastValue, if_pos List.mem_cons_self, ← htrim]
    rfl

end ApiClient.Xml.Element
