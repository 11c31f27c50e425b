import ApiClient.Proofs.Text.Trim
import ApiClient.Proofs.Xml.Shapes

/-!
# What does not count in a tree

* `SameInside`: texts that differ in the white space at their ends;
* `Alike`, `AlikeAll`: elements that differ in nothing that counts where they stand;
* `Alike.document_eq`, `AlikeAll.shown_eq`: their documents are equal.
-/

namespace ApiClient.Xml

/-! ## White space at the ends -/

/-- Texts that differ in the white space at their ends only. -/
def SameInside (s t : List Char) : Prop :=
  ∃ before after before' after' inner, s = before ++ inner ++ after ∧
    t = before' ++ inner ++ after' ∧
    ∀ c ∈ before ++ after ++ (before' ++ after'), Text.isBlank c = true

theorem SameInside.trim_eq {s t : String} (h : SameInside s.toList t.toList) :
    Text.trim s = Text.trim t := by
  obtain ⟨before, after, before', after', inner, hs, ht, hblank⟩ := h
  simp only [List.forall_mem_append] at hblank
  obtain ⟨⟨hb, ha⟩, hb', ha'⟩ := hblank
  rw [Text.trim, Text.trim, hs, ht, Text.strip_append hb ha, Text.strip_append hb' ha']

/-! ## Elements that are alike -/

/-- The attributes of an element without children that count at a place. -/
def Place.attributes : Place → Element → List (String × String)
  | .body, e => e.dataAttributes
  | .keyed, e => e.attributes

mutual

/-- Elements that differ in nothing that counts where they stand. -/
inductive Alike : Place → Element → Element → Prop
  /-- The text of a list never counts, and if it stands for itself, neither do its attributes beside
  the one that makes it a list. -/
  | array {place : Place} {e e' : Element} (h : e.kind = .array) (h' : e'.kind = .array)
      (attributes : place = .keyed → e.attributes = e'.attributes)
      (inside : AlikeAll .body e.children e'.children) : Alike place e e'
  /-- Neither the text nor the type of a map of children counts. -/
  | compound {place : Place} {e e' : Element} (h : e.kind = .compound) (h' : e'.kind = .compound)
      (attributes : e.dataAttributes = e'.dataAttributes)
      (inside : AlikeAll .keyed e.children e'.children) : Alike place e e'
  /-- Of an element without children the white space at the ends of its text does not count, and if
  it stands for itself, neither does its type. -/
  | leaf {place : Place} {e e' : Element} (h : e.kind = .leaf) (h' : e'.kind = .leaf)
      (attributes : place.attributes e = place.attributes e')
      (text : SameInside e.text.toList e'.text.toList) : Alike place e e'

/-- Lists of elements that are alike one by one. Tags count under a name only. -/
inductive AlikeAll : Place → List Element → List Element → Prop
  | nil {place : Place} : AlikeAll place [] []
  | cons {place : Place} {e e' : Element} {rest rest' : List Element}
      (tag : place.tag e = place.tag e') (first : Alike place e e')
      (more : AlikeAll place rest rest') : AlikeAll place (e :: rest) (e' :: rest')

end

open Element

/-- Elements without children have the same document if the attributes that count and the text
without its ends are the same. -/
theorem document_of_leaf_congr {place : Place} {e e' : Element} (h : e.kind = .leaf)
    (h' : e'.kind = .leaf) (hattributes : place.attributes e = place.attributes e')
    (hcontent : e.content = e'.content) : place.document e = place.document e' := by
  cases place with
  | body =>
    have hdata : e.dataAttributes = e'.dataAttributes := hattributes
    rw [Place.document, body_of_leaf h, body_of_leaf h', hdata, hcontent]
  | keyed =>
    have hall : e.attributes = e'.attributes := hattributes
    have hvalue : e.value = e.content := if_neg (by simp [h])
    have hvalue' : e'.value = e'.content := if_neg (by simp [h'])
    rw [Place.document, keyed_of_not_compound (by simp [h]), keyed_of_not_compound (by simp [h']),
      hvalue, hvalue', hcontent, hall]

mutual

/-- Elements that are alike have the same document. -/
theorem Alike.document_eq {place : Place} {e e' : Element} :
    Alike place e e' → place.document e = place.document e'
  | .array h h' hattributes inside => by
    have hbodies : e.children.map body = e'.children.map body := by
      have hshown := congrArg (List.map Prod.snd) inside.shown_eq
      rw [List.map_map, List.map_map] at hshown
      exact hshown
    cases place with
    | body => rw [Place.document, body_of_array h, body_of_array h', hbodies]
    | keyed =>
      have hvalue : e.value = e'.value := by rw [value, value, if_pos h, if_pos h', hbodies]
      rw [Place.document, keyed_of_not_compound (by simp [h]),
        keyed_of_not_compound (by simp [h']), hattributes rfl, hvalue]
  | .compound h h' hattributes inside => by
    have hpairs : childPairs e.children = childPairs e'.children := inside.shown_eq
    have hbody : e.body = e'.body := by
      rw [body_of_compound h, body_of_compound h', hattributes, hpairs]
    cases place with
    | body => exact hbody
    | keyed => rw [Place.document, keyed_of_compound h, keyed_of_compound h', hbody]
  | .leaf h h' hattributes htext =>
    document_of_leaf_congr h h' hattributes (congrArg Document.text htext.trim_eq)

/-- Elements that are alike one by one show the same. -/
theorem AlikeAll.shown_eq {place : Place} {children children' : List Element} :
    AlikeAll place children children' → children.map place.shown = children'.map place.shown
  | .nil => rfl
  | .cons htag first more => by
    rw [List.map_cons, List.map_cons, more.shown_eq, Place.shown, Place.shown, htag,
      first.document_eq]

end

end ApiClient.Xml
