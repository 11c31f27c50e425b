import Mathlib.Data.List.Forall2
import ApiClient.Proofs.Text.Pieces
import ApiClient.Proofs.Xml.Building
import ApiClient.Proofs.Xml.Escaping
import ApiClient.Proofs.Xml.Insignificance

/-!
# Two builders side by side

Builders that have read the same events but for white space next to a tag.

* `Respaced`: elements that are alike wherever they stand;
* `Follows`: builders with such elements, whose innermost texts are related;
* `Follows.step_tag`, `Follows.step`, `Follows.run`: the same events keep builders side by side;
* `agree_behind_tag`, `agree_before_tag`: so does white space behind a tag, and before one.
-/

namespace ApiClient.Xml

/-! ## Texts -/

/-- Texts that differ in the white space in front of them only. -/
def SameBehind (s t : List Char) : Prop :=
  ∃ before before' inner, s = before ++ inner ∧ t = before' ++ inner ∧
    ∀ c ∈ before ++ before', Text.isBlank c = true

theorem SameBehind.refl (s : List Char) : SameBehind s s := ⟨[], [], s, rfl, rfl, by simp⟩

theorem SameBehind.append {s t : List Char} (h : SameBehind s t) (u : List Char) :
    SameBehind (s ++ u) (t ++ u) := by
  obtain ⟨before, before', inner, rfl, rfl, hblank⟩ := h
  exact ⟨before, before', inner ++ u, by simp, by simp, hblank⟩

theorem SameBehind.sameInside {s t : List Char} (h : SameBehind s t) : SameInside s t := by
  obtain ⟨before, before', inner, rfl, rfl, hblank⟩ := h
  exact ⟨before, [], before', [], inner, by simp, by simp, by simpa using hblank⟩

theorem SameInside.refl (s : List Char) : SameInside s s := (SameBehind.refl s).sameInside

/-! ## Elements -/

mutual

theorem Alike.refl (place : Place) : ∀ e : Element, Alike place e e
  | ⟨name, attributes, children, text⟩ => by
    cases hkind : Element.kind ⟨name, attributes, children, text⟩ with
    | array => exact .array hkind hkind (fun _ => rfl) (AlikeAll.refl .body children)
    | compound => exact .compound hkind hkind rfl (AlikeAll.refl .keyed children)
    | leaf => exact .leaf hkind hkind rfl (.refl _)

theorem AlikeAll.refl (place : Place) : ∀ children : List Element, AlikeAll place children children
  | [] => .nil
  | e :: rest => .cons rfl (Alike.refl place e) (AlikeAll.refl place rest)

end

/-- Elements that are alike wherever they stand. -/
structure Respaced (e e' : Element) : Prop where
  name_eq : e.name = e'.name
  alike : ∀ place, Alike place e e'

theorem Respaced.refl (e : Element) : Respaced e e := ⟨rfl, fun place => .refl place e⟩

theorem alikeAll_of_respaced {children children' : List Element}
    (h : List.Forall₂ Respaced children children') (place : Place) :
    AlikeAll place children children' := by
  induction h with
  | nil => exact .nil
  | @cons e e' _ _ first _ ih =>
    have htag : place.tag e = place.tag e' := by
      cases place
      · rfl
      · exact first.name_eq
    exact .cons htag (first.alike place) ih

/-- Elements that are alike but for their own texts. -/
structure Loose (e e' : Element) : Prop where
  name_eq : e.name = e'.name
  attributes_eq : e.attributes = e'.attributes
  children : List.Forall₂ Respaced e.children e'.children

theorem Loose.refl (e : Element) : Loose e e :=
  ⟨rfl, rfl, List.forall₂_same.mpr fun c _ => .refl c⟩

theorem Loose.extend {e e' : Element} (h : Loose e e') {more more' : List Element}
    (hmore : List.Forall₂ Respaced more more') (text text' : String) :
    Loose (e.extend more text) (e'.extend more' text') :=
  ⟨h.name_eq, h.attributes_eq, List.rel_append h.children hmore⟩

/-- Elements that are alike but for their texts are alike if there are children or the texts differ
in the white space at their ends only. -/
theorem Loose.respaced {e e' : Element} (h : Loose e e')
    (htext : e.children = [] → SameInside e.text.toList e'.text.toList) : Respaced e e' := by
  have hnil : e.children = [] ↔ e'.children = [] := by
    rw [← List.length_eq_zero_iff, ← List.length_eq_zero_iff, h.children.length_eq]
  have hkinds : e'.kind = e.kind := by
    have harray : e'.isArray = e.isArray := by rw [Element.isArray, ← h.attributes_eq]; rfl
    have hcompound : e'.isCompound = e.isCompound := by
      rw [Bool.eq_iff_iff, Element.isCompound_iff, Element.isCompound_iff, harray, ne_eq, ne_eq,
        hnil]
    rw [Element.kind, Element.kind, harray, hcompound]
  have hdata : e.dataAttributes = e'.dataAttributes := by
    rw [Element.dataAttributes, h.attributes_eq]
    rfl
  refine ⟨h.name_eq, fun place => ?_⟩
  cases hkind : e.kind with
  | array =>
    exact .array hkind (hkinds.trans hkind) (fun _ => h.attributes_eq)
      (alikeAll_of_respaced h.children .body)
  | compound =>
    exact .compound hkind (hkinds.trans hkind) hdata (alikeAll_of_respaced h.children .keyed)
  | leaf =>
    have hplace : place.attributes e = place.attributes e' := by
      cases place
      · exact hdata
      · exact h.attributes_eq
    exact .leaf hkind (hkinds.trans hkind) hplace (htext (Element.kind_eq_leaf_iff.mp hkind).1)

theorem Respaced.document_eq {e e' : Element} (h : Respaced e e') : e.document = e'.document := by
  have hbody : e.body = e'.body := (h.alike .body).document_eq
  rw [Element.document, Element.document, Element.rootKey, Element.rootKey, h.name_eq, hbody]

/-! ## Builders -/

/-- Builders with elements that are alike, but for the texts of those that are open. The texts of
the innermost ones are related by `R`, if there are no children yet. -/
inductive Follows (R : List Char → List Char → Prop) : Builder → Builder → Prop
  | outside {root? root?' : Option Element} (h : Option.Rel Respaced root? root?') :
      Follows R ⟨[], root?⟩ ⟨[], root?'⟩
  | inside {top top' : Element} {outer outer' : List Element} {root? root?' : Option Element}
      (loose : Loose top top') (text : top.children = [] → R top.text.toList top'.text.toList)
      (around : List.Forall₂ Loose outer outer') (h : Option.Rel Respaced root? root?') :
      Follows R ⟨top :: outer, root?⟩ ⟨top' :: outer', root?'⟩

namespace Follows

variable {R S : List Char → List Char → Prop} {b b' : Builder}

theorem rel_refl (root? : Option Element) : Option.Rel Respaced root? root? := by
  cases root? with
  | none => exact .none
  | some e => exact .some (.refl e)

theorem isSome_eq {root? root?' : Option Element} (h : Option.Rel Respaced root? root?') :
    root?.isSome = root?'.isSome := by
  cases h <;> rfl

/-- A builder goes along with itself if the text of the innermost element is related to itself. -/
theorem refl (hR : ∀ top outer, b.opened = top :: outer → top.children = [] →
    R top.text.toList top.text.toList) : Follows R b b := by
  obtain ⟨opened, root?⟩ := b
  cases opened with
  | nil => exact .outside (rel_refl root?)
  | cons top outer =>
    exact .inside (.refl top) (hR top outer rfl) (List.forall₂_same.mpr fun e _ => .refl e)
      (rel_refl root?)

theorem mono (h : Follows R b b') (himp : ∀ s t, R s t → S s t) : Follows S b b' := by
  cases h with
  | outside h => exact .outside h
  | inside loose text around h => exact .inside loose (fun hc => himp _ _ (text hc)) around h

theorem opened (h : Follows R b b') : List.Forall₂ Loose b.opened b'.opened := by
  cases h with
  | outside => exact .nil
  | inside loose _ around _ => exact .cons loose around

theorem root (h : Follows R b b') : Option.Rel Respaced b.root? b'.root? := by
  cases h with
  | outside h => exact h
  | inside _ _ _ h => exact h

theorem mayBegin_eq (h : Follows R b b') : b.mayBegin = b'.mayBegin := by
  have hlength := h.opened.length_eq
  have hempty : b.opened.isEmpty = b'.opened.isEmpty := by
    rw [Bool.eq_iff_iff, List.isEmpty_iff_length_eq_zero, List.isEmpty_iff_length_eq_zero, hlength]
  rw [Builder.mayBegin, Builder.mayBegin, hlength, hempty, isSome_eq h.root]

/-- A child in the innermost elements makes their texts irrelevant. -/
theorem close {opened opened' : List Element} {root? root?' : Option Element} {e e' : Element}
    (ho : List.Forall₂ Loose opened opened') (hr : Option.Rel Respaced root? root?')
    (he : Respaced e e') :
    Follows R (Builder.close ⟨opened, root?⟩ e) (Builder.close ⟨opened', root?'⟩ e') := by
  cases ho with
  | nil => exact .outside (.some he)
  | cons loose around =>
    rw [Builder.close_of_opened rfl, Builder.close_of_opened rfl]
    exact .inside (loose.extend (.cons he .nil) "" "") (fun hc => by simp [Element.extend] at hc)
      around hr

/-- The same start of an element, with the same element behind it. -/
theorem begins (h : Follows R b b') (tag : Tag) {f f' : Element → Builder}
    (hf : ∀ e, Follows S (f e) (f' e)) :
    Agree (Follows S) (do b.mayBegin; let e ← Builder.element tag; return f e)
      (do b'.mayBegin; let e ← Builder.element tag; return f' e) := by
  rw [h.mayBegin_eq]
  refine (Agree.refl b'.mayBegin).bind fun _ _ _ => (Agree.refl (Builder.element tag)).bind ?_
  rintro e _ rfl
  exact .ok (hf e)

/-- Behind the same tag builders go on side by side. Before it the innermost texts may differ at
both ends. -/
theorem step_tag (h : Follows SameInside b b') {event : Event} (htag : event.IsTag) :
    Agree (Follows SameBehind) (b.step event) (b'.step event) := by
  cases event with
  | start tag =>
    exact h.begins tag fun e => .inside (.refl e) (fun _ => .refl _) h.opened h.root
  | empty tag =>
    exact h.begins tag fun e => close h.opened h.root (.refl e)
  | stop name =>
    cases h with
    | outside => exact .error _ _
    | inside loose text around hroot => exact .ok (close around hroot (loose.respaced text))
  | text | literal | aside => exact htag.elim

/-- Builders take texts that are the same inside, and relate what they have then. -/
theorem addText (h : Follows R b b') {s s' : List Char}
    (hstrip : Text.strip Text.isBlank s = Text.strip Text.isBlank s')
    (htext : ∀ t t', R t t' → S (t ++ s) (t' ++ s')) :
    Agree (Follows S) (b.addText s) (b'.addText s') := by
  cases h with
  | outside hroot =>
    simp only [Builder.addText, hstrip]
    split_ifs
    · exact .ok (.outside hroot)
    · exact .error _ _
  | inside loose text around hroot =>
    rw [Builder.addText_of_opened rfl, Builder.addText_of_opened rfl]
    refine .ok (.inside (loose.extend .nil _ _) (fun hc => ?_) around hroot)
    simp only [Element.extend, List.append_nil] at hc
    simpa [Element.extend, String.toList_append, String.toList_ofList] using
      htext _ _ (text hc)

/-- The same event keeps builders side by side. -/
theorem step (h : Follows SameBehind b b') (event : Event) :
    Agree (Follows SameBehind) (b.step event) (b'.step event) := by
  cases event with
  | start | empty | stop => exact (h.mono fun _ _ => SameBehind.sameInside).step_tag trivial
  | text raw =>
    refine ((Agree.refl (unescape raw)).mapError _ _).bind ?_
    rintro s _ rfl
    exact h.addText rfl fun _ _ h => h.append s
  | literal content => exact h.addText rfl fun _ _ h => h.append content
  | aside => exact .ok h

/-- The same events keep builders side by side. -/
theorem run (h : Follows SameBehind b b') (events : List Event) :
    Agree (Follows SameBehind) (b.run events) (b'.run events) := by
  induction events generalizing b b' with
  | nil => exact .ok h
  | cons event events ih =>
    rw [Builder.run_cons, Builder.run_cons]
    exact (h.step event).bind fun _ _ h => ih h

theorem finish (h : Follows R b b') : Agree Respaced b.finish b'.finish := by
  cases h with
  | outside h =>
    cases h with
    | none => exact .error _ _
    | some he => exact .ok he
  | inside => exact .error _ _

end Follows

/-! ## White space next to a tag -/

namespace Builder

/-- The innermost element has no text, unless it has a child. -/
def Fresh (b : Builder) : Prop :=
  ∀ top outer, b.opened = top :: outer → top.children = [] → top.text = ""

theorem fresh_close (b : Builder) (e : Element) : (b.close e).Fresh := by
  intro top outer ho hc
  obtain ⟨opened, root?⟩ := b
  cases opened with
  | nil => cases ho
  | cons parent outer' =>
    rw [close_of_opened rfl] at ho
    obtain ⟨rfl, -⟩ := List.cons_eq_cons.mp ho
    simp [Element.extend] at hc

/-- Behind a tag an element is fresh. -/
theorem fresh_of_step_tag {b b' : Builder} {event : Event} (htag : event.IsTag)
    (h : b.step event = .ok b') : b'.Fresh := by
  cases event with
  | start tag =>
    obtain ⟨-, attributes, -, rfl⟩ := hasPlace_of_begins h
    intro top outer ho _
    obtain ⟨rfl, -⟩ := List.cons_eq_cons.mp ho
    rfl
  | empty tag =>
    obtain ⟨-, attributes, -, rfl⟩ := hasPlace_of_begins h
    exact fresh_close _ _
  | stop name =>
    obtain ⟨opened, root?⟩ := b
    cases opened with
    | nil => cases h
    | cons e outer =>
      cases h
      exact fresh_close _ _
  | text | literal | aside => exact htag.elim

variable {gap : List Char} (hgap : ∀ c ∈ gap, Text.isBlank c = true)
include hgap

theorem plain_of_isBlank : ∀ c ∈ gap, c ≠ '&' ∧ c ≠ ';' := fun c hc =>
  ⟨Text.ne_of_test (hgap c hc) rfl, Text.ne_of_test (hgap c hc) rfl⟩

/-- White space behind a tag leaves builders side by side. -/
theorem agree_behind_tag {b : Builder} (hb : b.Fresh) (raw : List Char) :
    Agree (Follows SameBehind) (b.step (.text raw)) (b.step (.text (gap ++ raw))) := by
  refine ((unescape_append_left (plain_of_isBlank hgap) raw).mapError _ _).bind ?_
  rintro s _ rfl
  have hempty : Follows (fun t t' => t = [] ∧ t' = []) b b := .refl fun top outer ho hc => by
    simp [hb top outer ho hc]
  have hstrip := Text.strip_append hgap (List.forall_mem_nil _) s
  rw [List.append_nil] at hstrip
  refine hempty.addText hstrip.symm ?_
  rintro _ _ ⟨rfl, rfl⟩
  exact ⟨[], gap, s, rfl, rfl, by simpa using hgap⟩

/-- White space in front of a tag leaves builders side by side, up to the tag. -/
theorem agree_before_tag (b : Builder) (raw : List Char) :
    Agree (Follows SameInside) (b.step (.text raw)) (b.step (.text (raw ++ gap))) := by
  refine ((unescape_append (plain_of_isBlank hgap) raw).mapError _ _).bind ?_
  rintro s _ rfl
  have hsame : Follows (· = ·) b b := .refl fun _ _ _ _ => rfl
  have hstrip := Text.strip_append (List.forall_mem_nil _) hgap s
  rw [List.nil_append] at hstrip
  refine hsame.addText hstrip.symm ?_
  rintro t _ rfl
  exact ⟨[], [], [], gap, t ++ s, by simp, by simp, by simpa using hgap⟩

end Builder

end ApiClient.Xml
