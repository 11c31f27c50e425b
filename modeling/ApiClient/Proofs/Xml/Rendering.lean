import ApiClient.Xml.Element

/-!
# Renderings of a tree

A tree can be written down in many ways.

* `Tree`, `Mixed`: an element, and what stands in it, in order;
* `Tree.element`: the element that a tree stands for;
* `Tree.WellFormed`: proper names everywhere, and no attribute twice;
* `AttributesRendering`, `Tree.Rendering`, `Mixed.Rendering`: the ways to write attributes, an
  element and what stands in it;
* `Tree.Printed`: the texts of a tree, with what may stand around the root.
-/

namespace ApiClient.Xml

/-! ## Trees -/

mutual

/-- An element with what stands in it. -/
inductive Tree where
  | node (name : String) (attributes : List (String × String)) (content : Mixed)

/-- Character data and elements, in order. -/
inductive Mixed where
  | nil
  | text (s : String) (rest : Mixed)
  | child (t : Tree) (rest : Mixed)

end

/-- All the character data directly in an element. -/
def Mixed.characters : Mixed → String
  | .nil => ""
  | .text s rest => s ++ rest.characters
  | .child _ rest => rest.characters

mutual

/-- The element that a tree stands for. -/
def Tree.element : Tree → Element
  | .node name attributes content => ⟨name, attributes, content.elements, content.characters⟩

/-- The elements directly in an element. -/
def Mixed.elements : Mixed → List Element
  | .nil => []
  | .text _ rest => rest.elements
  | .child t rest => t.element :: rest.elements

end

/-- A character that may continue a name. -/
def isNameChar (c : Char) : Bool := c.isAlphanum || c == '_' || c == '-'

/-- A name is a letter with letters, digits, underscores and hyphens behind it. -/
def isName (name : String) : Bool :=
  match name.toList with
  | [] => false
  | c :: rest => c.isAlpha && rest.all isNameChar

/-- Attributes with proper names, none of them twice. -/
def AttributesWellFormed (attributes : List (String × String)) : Prop :=
  (∀ a ∈ attributes, isName a.1 = true) ∧ (attributes.map (·.1)).Nodup

mutual

/-- Proper names everywhere, and no attribute twice. -/
def Tree.WellFormed : Tree → Prop
  | .node name attributes content =>
    isName name = true ∧ AttributesWellFormed attributes ∧ content.WellFormed

/-- The same for everything in an element. -/
def Mixed.WellFormed : Mixed → Prop
  | .nil => True
  | .text _ rest => rest.WellFormed
  | .child t rest => t.WellFormed ∧ rest.WellFormed

end

/-! ## Ways to write a tree -/

/-- Attributes, each behind white space and its value in quotes of either kind, with white space at
the end. -/
inductive AttributesRendering : List (String × String) → List Char → Prop
  | nil {gap : List Char} (hgap : ∀ c ∈ gap, isBlank c = true) : AttributesRendering [] gap
  | cons {gap s : List Char} {quote : Char} {name value : String}
      {attributes : List (String × String)} (hne : gap ≠ []) (hgap : ∀ c ∈ gap, isBlank c = true)
      (hq : quote = '"' ∨ quote = '\'') (rest : AttributesRendering attributes s) :
      AttributesRendering ((name, value) :: attributes)
        (gap ++ (name.toList ++ '=' :: quote :: (escape value.toList ++ quote :: s)))

/-- Character data as a section without references. -/
def sectionText (s : List Char) : List Char := "<![CDATA[".toList ++ s ++ "]]>".toList

/-- A comment, whose content does not hold the mark of its end. -/
inductive Comment : List Char → Prop
  | mk {s : List Char} (h : ¬ "-->".toList <:+: s) : Comment ("<!--".toList ++ s ++ "-->".toList)

mutual

/-- The ways to write an element: with one tag if nothing is in it, or with two. -/
inductive Tree.Rendering : Tree → List Char → Prop
  | empty {name : String} {attributes : List (String × String)} {a : List Char}
      (ha : AttributesRendering attributes a) :
      Tree.Rendering (.node name attributes .nil) ('<' :: (name.toList ++ a ++ ['/', '>']))
  | pair {name : String} {attributes : List (String × String)} {content : Mixed}
      {a s gap : List Char} (ha : AttributesRendering attributes a)
      (inside : Mixed.Rendering content s) (hgap : ∀ c ∈ gap, isBlank c = true) :
      Tree.Rendering (.node name attributes content)
        ('<' :: (name.toList ++ a ++ '>' :: (s ++ '<' :: '/' :: (name.toList ++ gap ++ ['>']))))

/-- The ways to write what stands in an element. Character data is cut into pieces anywhere, each
with references or as a section without them, and comments stand anywhere. -/
inductive Mixed.Rendering : Mixed → List Char → Prop
  | nil : Mixed.Rendering .nil []
  | textEnd {rest : Mixed} {r : List Char} (h : Mixed.Rendering rest r) :
      Mixed.Rendering (.text "" rest) r
  | text {s t : String} {rest : Mixed} {r : List Char} (h : Mixed.Rendering (.text t rest) r) :
      Mixed.Rendering (.text (s ++ t) rest) (escape s.toList ++ r)
  | literal {s t : String} {rest : Mixed} {r : List Char} (hs : ¬ "]]>".toList <:+: s.toList)
      (h : Mixed.Rendering (.text t rest) r) :
      Mixed.Rendering (.text (s ++ t) rest)
        (sectionText s.toList ++ r)
  | comment {m : Mixed} {s r : List Char} (hs : Comment s) (h : Mixed.Rendering m r) :
      Mixed.Rendering m (s ++ r)
  | child {t : Tree} {rest : Mixed} {s r : List Char} (first : t.Rendering s)
      (h : Mixed.Rendering rest r) : Mixed.Rendering (.child t rest) (s ++ r)

end

/-- White space and comments, as they may stand around the root. -/
inductive Surrounding : List Char → Prop
  | nil : Surrounding []
  | blank {c : Char} {s : List Char} (hc : Text.isBlank c = true) (h : Surrounding s) :
      Surrounding (c :: s)
  | comment {s r : List Char} (hs : Comment s) (h : Surrounding r) : Surrounding (s ++ r)

/-- The declaration that a text may begin with. -/
inductive Declaration : List Char → Prop
  | none : Declaration []
  | some {s : List Char} (h : ¬ "?>".toList <:+: s) :
      Declaration ("<?xml".toList ++ s ++ "?>".toList)

/-- The texts of a tree. -/
inductive Tree.Printed : Tree → List Char → Prop
  | mk {t : Tree} {declaration before root after : List Char} (hd : Declaration declaration)
      (hb : Surrounding before) (hr : t.Rendering root) (ha : Surrounding after) :
      Tree.Printed t (declaration ++ before ++ root ++ after)

end ApiClient.Xml
