import Mathlib.Tactic.Common
import ApiClient.Proofs.Results
import ApiClient.Proofs.Text.Trim
import ApiClient.Proofs.Xml.Grammar

/-!
# Building along the grammar

A builder takes the events of a derivation to the tree that is derived.

* `step_start`, `step_empty`, `step_chars`: what an event does;
* `hasPlace_of_begins`, `of_step_chars`: what can be said of one that has done it;
* `run_balanced`, `run_content`, `run_enclosed`: a derivation takes the builder to the element that
  it derives, or into the fault of too deep a nesting.
-/

namespace ApiClient.Xml

namespace Builder

/-! ## Single steps -/

theorem step_chars {event : Event} {s : List Char} (h : event.chars? = some s) (b : Builder) :
    b.step event = b.addText s := by
  cases event with
  | text raw =>
    simp only [Event.chars?] at h
    cases hu : unescape raw with
    | error fault => simp [hu, Except.toOption] at h
    | ok t =>
      simp only [hu, Except.toOption, Option.some.injEq] at h
      subst h
      simp [step, hu, mapError_ok, bind, Except.bind]
  | literal content =>
    simp only [Event.chars?, Option.some.injEq] at h
    subst h
    rfl
  | start | empty | stop | aside => simp [Event.chars?] at h

/-- An element may begin here as far as the root is concerned. -/
def HasPlace (b : Builder) : Prop := b.opened = [] → b.root? = none

theorem mayBegin_of_hasPlace {b : Builder} (h : b.HasPlace) :
    b.mayBegin = if maxDepth ≤ b.opened.length then .error .tooDeep else .ok () := by
  have hr : ¬ (b.opened.isEmpty = true ∧ b.root?.isSome = true) := by
    rintro ⟨h₁, h₂⟩
    rw [h (List.isEmpty_iff.mp h₁)] at h₂
    exact absurd h₂ (by simp)
  simp only [mayBegin, if_neg hr]

theorem mayBegin_eq_ok_iff {b : Builder} :
    b.mayBegin = .ok () ↔ b.HasPlace ∧ b.opened.length < maxDepth := by
  constructor
  · intro h
    have hp : b.HasPlace := by
      intro ho
      by_contra hr
      simp [mayBegin, ho, Option.isSome_iff_ne_none.mpr hr] at h
    rw [mayBegin_of_hasPlace hp] at h
    refine ⟨hp, ?_⟩
    by_contra hd
    simp [Nat.le_of_not_lt hd] at h
  · rintro ⟨hp, hd⟩
    rw [mayBegin_of_hasPlace hp, if_neg (Nat.not_le.mpr hd)]

theorem element_eq_ok_iff {tag : Tag} {e : Element} :
    element tag = .ok e ↔
      ∃ attributes, tag.attributes = .ok attributes ∧
        e = ⟨String.ofList tag.name, attributes, [], ""⟩ := by
  cases h : tag.attributes with
  | error fault => simp [element, h, mapError_error, bind, Except.bind]
  | ok attributes =>
    simp [element, h, mapError_ok, bind, Except.bind, pure, Except.pure, eq_comm]

section Begins

variable {b b' : Builder} {tag : Tag} {attributes : List (String × String)}

/-- What becomes of an element that begins, unless it is nested too deep. -/
theorem begins_of_hasPlace (h : b.HasPlace) (ha : tag.attributes = .ok attributes)
    (f : Element → Builder) :
    (do b.mayBegin; let e ← element tag; return f e) =
      if maxDepth ≤ b.opened.length then .error .tooDeep
      else .ok (f ⟨String.ofList tag.name, attributes, [], ""⟩) := by
  have he := element_eq_ok_iff.mpr ⟨attributes, ha, rfl⟩
  rw [mayBegin_of_hasPlace h, he]
  by_cases hd : maxDepth ≤ b.opened.length
  · rw [if_pos hd, if_pos hd]
    rfl
  · rw [if_neg hd, if_neg hd]
    rfl

/-- An element that has begun has a place, and its attributes can be read. -/
theorem hasPlace_of_begins {f : Element → Builder}
    (h : (do b.mayBegin; let e ← element tag; return f e) = .ok b') :
    b.HasPlace ∧ ∃ attributes, tag.attributes = .ok attributes ∧
      b' = f ⟨String.ofList tag.name, attributes, [], ""⟩ := by
  obtain ⟨_, hm, h⟩ := bind_eq_ok_iff.mp h
  obtain ⟨e, he, h⟩ := bind_eq_ok_iff.mp h
  obtain ⟨attributes, ha, rfl⟩ := element_eq_ok_iff.mp he
  cases h
  exact ⟨(mayBegin_eq_ok_iff.mp hm).1, attributes, ha, rfl⟩

/-- A start tag opens its element. -/
theorem step_start (h : b.HasPlace) (ha : tag.attributes = .ok attributes) :
    b.step (.start tag) =
      if maxDepth ≤ b.opened.length then .error .tooDeep
      else .ok { b with opened := ⟨String.ofList tag.name, attributes, [], ""⟩ :: b.opened } :=
  begins_of_hasPlace h ha fun e => { b with opened := e :: b.opened }

/-- A tag that is a whole element puts it in its place. -/
theorem step_empty (h : b.HasPlace) (ha : tag.attributes = .ok attributes) :
    b.step (.empty tag) =
      if maxDepth ≤ b.opened.length then .error .tooDeep
      else .ok (b.close ⟨String.ofList tag.name, attributes, [], ""⟩) :=
  begins_of_hasPlace h ha b.close

end Begins

theorem addText_of_opened {b : Builder} {top : Element} {outer : List Element}
    (h : b.opened = top :: outer) (s : List Char) :
    b.addText s = .ok { b with opened := top.extend [] (String.ofList s) :: outer } := by
  simp [addText, h, Element.extend]

theorem close_of_opened {b : Builder} {top : Element} {outer : List Element}
    (h : b.opened = top :: outer) (e : Element) :
    b.close e = { b with opened := top.extend [e] "" :: outer } := by
  simp [close, h, Element.extend]

theorem of_step_chars {b b' : Builder} {event : Event} {s : List Char}
    (hs : event.chars? = some s) (h : b.step event = .ok b') :
    b.opened = [] ∧ event.IsBlank ∧ b' = b ∨
      ∃ top outer, b.opened = top :: outer ∧
        b' = { b with opened := top.extend [] (String.ofList s) :: outer } := by
  rw [step_chars hs] at h
  cases ho : b.opened with
  | nil =>
    simp only [addText, ho] at h
    split at h
    · next he =>
      cases h
      exact .inl ⟨rfl, ⟨s, hs, Text.strip_eq_nil_iff.mp (List.isEmpty_iff.mp he)⟩, rfl⟩
    · cases h
  | cons top outer =>
    rw [addText_of_opened ho] at h
    cases h
    exact .inr ⟨top, outer, rfl, rfl⟩

theorem chars_of_step_text {b b' : Builder} {raw : List Char} (h : b.step (.text raw) = .ok b') :
    ∃ s, (Event.text raw).chars? = some s := by
  simp only [step] at h
  obtain ⟨s, hs, -⟩ := bind_eq_ok_iff.mp h
  exact ⟨s, by simp [Event.chars?, mapError_eq_ok_iff.mp hs, Except.toOption]⟩

/-! ## Runs along a derivation -/

/-- The builder after events. -/
def run (b : Builder) (events : List Event) : Except Fault Builder := events.foldlM step b

@[simp] theorem run_nil (b : Builder) : b.run [] = .ok b := rfl

theorem run_cons (b : Builder) (event : Event) (events : List Event) :
    b.run (event :: events) = (b.step event).bind (·.run events) := by
  simp [run, bind]

theorem run_append (b : Builder) (events more : List Event) :
    b.run (events ++ more) = (b.run events).bind (·.run more) := by
  simp [run, bind]

mutual

/-- The events of an element put it in its place, unless it is nested too deep. -/
theorem run_balanced {events : List Event} {e : Element} :
    Balanced events e → ∀ b : Builder, b.HasPlace →
      b.run events =
        if b.opened.length + e.depth ≤ maxDepth then .ok (b.close e) else .error .tooDeep
  | .empty ha, b, hp => by
    rw [run_cons, step_empty hp ha]
    simp only [Element.depth, Element.depths, Nat.zero_add]
    by_cases hd : maxDepth ≤ b.opened.length
    · rw [if_pos hd, if_neg (by omega)]
      rfl
    · rw [if_neg hd, if_pos (by omega)]
      rfl
  | @Balanced.pair tag attributes _ children text ha inside, b, hp => by
    -- the start tag fails on its own, before anything in the element is seen
    rw [run_cons, step_start hp ha]
    by_cases hd : maxDepth ≤ b.opened.length
    · rw [if_pos hd, if_neg (by simp only [Element.depth]; omega)]
      rfl
    · rw [if_neg hd, Except.bind, run_append,
        run_content inside _ _ _ rfl (by simp only [List.length_cons]; omega)]
      simp only [List.length_cons]
      by_cases hi : b.opened.length + 1 + Element.depths children ≤ maxDepth
      · rw [if_pos hi, if_pos (by simp only [Element.depth]; omega)]
        simp [run_cons, step, Element.extend, Except.bind]
      · rw [if_neg hi, if_neg (by simp only [Element.depth]; omega)]
        rfl

/-- Content goes into the innermost element, unless something in it is nested too deep. -/
theorem run_content {events : List Event} {children : List Element} {text : String} :
    Content events children text → ∀ (b : Builder) (top : Element) (outer : List Element),
      b.opened = top :: outer → b.opened.length ≤ maxDepth →
      b.run events =
        if b.opened.length + Element.depths children ≤ maxDepth then
          .ok { b with opened := top.extend children text :: outer }
        else .error .tooDeep
  | .nil, b, top, outer, ho, hl => by
    rw [Element.extend_nil, ← ho, if_pos (by simpa [Element.depths] using hl)]
    rfl
  | @Content.chars _ s _ children _ hc rest, b, top, outer, ho, hl => by
    have hl' : (top.extend [] (String.ofList s) :: outer).length ≤ maxDepth := by
      rw [ho] at hl
      exact hl
    rw [run_cons, step_chars hc, addText_of_opened ho, Except.bind,
      run_content rest _ _ _ rfl hl', Element.extend_extend, ho]
    rfl
  | @Content.child _ _ e children _ first rest, b, top, outer, ho, hl => by
    -- inside of an element the root is no obstacle
    have hp : b.HasPlace := fun h => by simp [ho] at h
    rw [run_append, run_balanced first b hp]
    by_cases hd : b.opened.length + e.depth ≤ maxDepth
    · have hl' : (top.extend [e] "" :: outer).length ≤ maxDepth := by
        rw [ho] at hl
        exact hl
      rw [if_pos hd, close_of_opened ho, Except.bind, run_content rest _ _ _ rfl hl',
        Element.extend_extend]
      simp only [ho, List.length_cons, Element.depths, List.cons_append, List.nil_append,
        String.empty_append] at hd ⊢
      by_cases hr : outer.length + 1 + Element.depths children ≤ maxDepth
      · rw [if_pos hr, if_pos (by omega)]
      · rw [if_neg hr, if_neg (by omega)]
    · rw [if_neg hd, if_neg (by simp only [Element.depths]; omega)]
      rfl

end

/-! ## Around the root -/

/-- White space outside of the root changes nothing. -/
theorem step_blank {b : Builder} (ho : b.opened = []) {event : Event} (h : event.IsBlank) :
    b.step event = .ok b := by
  obtain ⟨s, hs, hb⟩ := h
  have he : Text.strip Text.isBlank s = [] := Text.strip_eq_nil_iff.mpr hb
  simp [step_chars hs, addText, ho, he]

theorem run_blank {b : Builder} (ho : b.opened = []) {events : List Event}
    (h : ∀ x ∈ events, x.IsBlank) : b.run events = .ok b := by
  induction events with
  | nil => rfl
  | cons x events ih =>
    rw [run_cons, step_blank ho (h x List.mem_cons_self)]
    exact ih fun y hy => h y (List.mem_cons_of_mem x hy)

/-- The events of a whole text take a new builder to their tree, unless it is nested too deep. -/
theorem run_enclosed {events : List Event} {e : Element} (h : Enclosed events e) :
    ({} : Builder).run events =
      if e.depth ≤ maxDepth then .ok { opened := [], root? := some e } else .error .tooDeep := by
  obtain ⟨before, inner, after, rfl, hb, hi, ha⟩ := h
  rw [run_append, run_append, run_blank rfl hb]
  simp only [Except.bind]
  rw [run_balanced hi {} fun _ => rfl]
  simp only [List.length_nil, Nat.zero_add]
  by_cases hd : e.depth ≤ maxDepth
  · rw [if_pos hd, if_pos hd]
    exact run_blank rfl ha
  · rw [if_neg hd, if_neg hd]

/-- Asides change nothing. -/
theorem run_significant (b : Builder) (events : List Event) :
    b.run (significant events) = b.run events := by
  induction events generalizing b with
  | nil => rfl
  | cons x events ih =>
    by_cases hx : x = .aside
    · subst hx
      rw [run_cons]
      exact ih b
    · rw [significant, List.filter_cons_of_pos (by simpa using hx), run_cons, run_cons]
      exact congrArg _ (funext ih)

end Builder

theorem Element.ofEvents_eq (events : List Event) :
    Element.ofEvents events = (({} : Builder).run events).bind Builder.finish := rfl

/-- The events of a whole text give their tree, unless it is nested too deep. -/
theorem Element.ofEvents_of_enclosed {events : List Event} {e : Element}
    (h : Enclosed (significant events) e) :
    Element.ofEvents events = if e.depth ≤ maxDepth then .ok e else .error .tooDeep := by
  rw [Element.ofEvents_eq, ← Builder.run_significant, Builder.run_enclosed h]
  by_cases hd : e.depth ≤ maxDepth
  · rw [if_pos hd, if_pos hd]
    rfl
  · rw [if_neg hd, if_neg hd]
    rfl

end ApiClient.Xml
