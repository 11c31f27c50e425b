import ApiClient.Proofs.Xml.Building

/-!
# What the builder accepts

A builder that has come anywhere has read events of the grammar up to there.

* `Open`: the events behind which elements are open, with these elements as far as they are read;
* `Reached`: the events that have led a builder to where it is;
* `Reached.step`, `Reached.run`: every step, and so every run, keeps to such events;
* `ofEvents_eq_ok_iff_spells`: the trees that events give are those that they spell.
-/

namespace ApiClient.Xml

/-- The events behind which elements are open, the innermost first, with the names of their tags.
-/
inductive Open : List Event → List (List Char) → List Element → Prop
  | blank {events : List Event} (h : ∀ x ∈ events, x.IsBlank) : Open events [] []
  | start {events inner : List Event} {names : List (List Char)} {opened children : List Element}
      {tag : Tag} {attributes : List (String × String)} {text : String}
      (outer : Open events names opened) (h : tag.attributes = .ok attributes)
      (inside : Content inner children text) :
      Open (events ++ .start tag :: inner) (tag.name :: names)
        (⟨String.ofList tag.name, attributes, children, text⟩ :: opened)

/-- The events that have led a builder to where it is: inside of the root or before it, or behind
the root. -/
inductive Reached : List Event → List (List Char) → Builder → Prop
  | inside {events : List Event} {names : List (List Char)} {opened : List Element}
      (h : Open events names opened) : Reached events names { opened, root? := none }
  | behind {events : List Event} {e : Element} (h : Enclosed events e) :
      Reached events [] { opened := [], root? := some e }

theorem Open.snoc_chars {events : List Event} {names : List (List Char)} {top : Element}
    {outer : List Element} {event : Event} {s : List Char}
    (h : Open events names (top :: outer)) (hs : event.chars? = some s) :
    Open (events ++ [event]) names (top.extend [] (String.ofList s) :: outer) := by
  cases h with
  | start ho ha inside =>
    have h := Open.start ho ha (inside.snoc_chars hs)
    simpa [Element.extend] using h

theorem Open.snoc_balanced {events inner : List Event} {names : List (List Char)} {top e : Element}
    {outer : List Element} (h : Open events names (top :: outer)) (hb : Balanced inner e) :
    Open (events ++ inner) names (top.extend [e] "" :: outer) := by
  cases h with
  | start ho ha inside =>
    have h := Open.start ho ha (inside.snoc_child hb)
    simpa [Element.extend] using h

/-- An element that is complete goes into the innermost open one, or is the root. -/
theorem Open.close {events inner : List Event} {names : List (List Char)} {opened : List Element}
    {e : Element} (h : Open events names opened) (hb : Balanced inner e) :
    Reached (events ++ inner) names (Builder.close { opened, root? := none } e) := by
  cases opened with
  | nil =>
    cases h with
    | blank hblank =>
      exact .behind ⟨events, inner, [], by simp, hblank, hb, by simp⟩
  | cons top outer =>
    rw [Builder.close_of_opened rfl]
    exact .inside (h.snoc_balanced hb)

theorem Enclosed.snoc_blank {events : List Event} {e : Element} {event : Event}
    (h : Enclosed events e) (hx : event.IsBlank) : Enclosed (events ++ [event]) e := by
  obtain ⟨before, inner, after, rfl, hb, hi, ha⟩ := h
  refine ⟨before, inner, after ++ [event], by simp, hb, hi, ?_⟩
  exact List.forall_mem_append.mpr ⟨ha, List.forall_mem_singleton.mpr hx⟩

theorem Reached.open {events : List Event} {names : List (List Char)} {b : Builder}
    (h : Reached events names b) (hp : b.HasPlace) :
    b.root? = none ∧ Open events names b.opened := by
  cases h with
  | inside h => exact ⟨rfl, h⟩
  | behind h => exact absurd (hp rfl) (by simp)

/-! ## Steps and runs -/

theorem Reached.snoc_chars {events : List Event} {names : List (List Char)} {b b' : Builder}
    {event : Event} {s : List Char} (h : Reached events names b) (hs : event.chars? = some s)
    (hx : b.step event = .ok b') : Reached (events ++ [event]) names b' := by
  rcases Builder.of_step_chars hs hx with ⟨ho, hb, rfl⟩ | ⟨top, outer, ho, rfl⟩
  · cases h with
    | inside h =>
      subst ho
      cases h with
      | blank hblank =>
        refine .inside (.blank ?_)
        exact List.forall_mem_append.mpr ⟨hblank, List.forall_mem_singleton.mpr hb⟩
    | behind h => exact .behind (h.snoc_blank hb)
  · cases h with
    | inside h =>
      subst ho
      exact .inside (h.snoc_chars hs)
    | behind h => cases ho

theorem Reached.step {events more : List Event} {names : List (List Char)} {b b' : Builder}
    {event : Event} (h : Reached events names b) (hx : b.step event = .ok b')
    (hm : Matched names (event :: more)) (hne : event ≠ .aside) :
    ∃ names', Matched names' more ∧ Reached (events ++ [event]) names' b' := by
  cases event with
  | start tag =>
    obtain ⟨hp, attributes, ha, rfl⟩ := Builder.hasPlace_of_begins hx
    obtain ⟨hr, ho⟩ := h.open hp
    refine ⟨tag.name :: names, hm, ?_⟩
    rw [hr]
    exact .inside (.start ho ha .nil)
  | empty tag =>
    obtain ⟨hp, attributes, ha, rfl⟩ := Builder.hasPlace_of_begins hx
    obtain ⟨hr, ho⟩ := h.open hp
    obtain ⟨opened, root?⟩ := b
    subst hr
    exact ⟨names, by simpa [Matched] using hm, ho.close (.empty ha)⟩
  | stop name =>
    cases h with
    | behind h => cases hx
    | inside h =>
      cases h with
      | blank => cases hx
      | @start before inner names outer children tag attributes text ho ha inside =>
        -- the end tag is that of the innermost element, whose derivation is complete with it
        obtain ⟨rfl, hm⟩ := hm
        cases hx
        have hr := ho.close (.pair ha inside)
        exact ⟨names, hm, by simpa using hr⟩
  | text raw =>
    obtain ⟨s, hs⟩ := Builder.chars_of_step_text hx
    exact ⟨names, by simpa [Matched] using hm, h.snoc_chars hs hx⟩
  | literal content =>
    exact ⟨names, by simpa [Matched] using hm, h.snoc_chars rfl hx⟩
  | aside => exact absurd rfl hne

theorem Reached.run {events more : List Event} {names : List (List Char)} {b b' : Builder}
    (h : Reached events names b) (hr : b.run more = .ok b') (hm : Matched names more)
    (hne : ∀ x ∈ more, x ≠ .aside) : ∃ names', Reached (events ++ more) names' b' := by
  induction more generalizing events names b with
  | nil =>
    cases hr
    exact ⟨names, by simpa using h⟩
  | cons x more ih =>
    rw [Builder.run_cons] at hr
    obtain ⟨b₁, hx, hr⟩ := bind_eq_ok_iff.mp hr
    obtain ⟨names₁, hm, h₁⟩ := h.step hx hm (hne x List.mem_cons_self)
    obtain ⟨names', h'⟩ := ih h₁ hr hm fun y hy => hne y (List.mem_cons_of_mem x hy)
    exact ⟨names', by simpa using h'⟩

/-! ## Acceptance -/

theorem Matched.significant {events : List Event} :
    ∀ {names : List (List Char)}, Matched names events → Matched names (significant events) := by
  induction events with
  | nil => exact fun _ => trivial
  | cons x events ih =>
    intro names h
    cases x with
    | start tag => exact ih h
    | stop name =>
      cases names with
      | nil => exact h
      | cons expected names => exact ⟨h.1, ih h.2⟩
    | empty | text | literal | aside =>
      simp only [Matched] at h
      simpa [ApiClient.Xml.significant, Matched] using ih h

/-- Events that give a tree are those of a whole text with this tree. -/
theorem enclosed_of_ofEvents {events : List Event} (hm : Matched [] events) {e : Element}
    (h : Element.ofEvents events = .ok e) : Enclosed (significant events) e := by
  rw [Element.ofEvents_eq, ← Builder.run_significant] at h
  obtain ⟨b, hr, hf⟩ := bind_eq_ok_iff.mp h
  have hne : ∀ x ∈ significant events, x ≠ .aside := by
    intro x hx
    simpa using (List.mem_filter.mp hx).2
  have h₀ : Reached [] [] {} := .inside (.blank fun x hx => absurd hx List.not_mem_nil)
  obtain ⟨names, h⟩ := h₀.run hr hm.significant hne
  rw [List.nil_append] at h
  generalize significant events = kept at h ⊢
  cases h with
  | inside h =>
    cases h with
    | blank => cases hf
    | start => cases hf
  | behind h =>
    cases hf
    exact h

/-- Events whose end tags match give exactly the tree that they spell, which is one tree at most,
and a fault if they spell none. -/
theorem ofEvents_eq_ok_iff_spells {events : List Event} (hm : Matched [] events) :
    (∀ e, Element.ofEvents events = .ok e ↔ Spells events e) ∧
      (∀ e e', Spells events e → Spells events e' → e = e') ∧
      ((¬ ∃ e, Spells events e) → ∃ fault, Element.ofEvents events = .error fault) := by
  have hiff : ∀ e, Element.ofEvents events = .ok e ↔ Spells events e := by
    intro e
    constructor
    · intro h
      have hw := enclosed_of_ofEvents hm h
      rw [Element.ofEvents_of_enclosed hw] at h
      refine ⟨hw, ?_⟩
      by_contra hd
      rw [if_neg hd] at h
      cases h
    · intro h
      rw [Element.ofEvents_of_enclosed h.enclosed, if_pos h.depth_le]
  refine ⟨hiff, ?_, ?_⟩
  · intro e e' h h'
    have heq := ((hiff e).mpr h).symm.trans ((hiff e').mpr h')
    cases heq
    rfl
  · intro hno
    cases hr : Element.ofEvents events with
    | ok e => exact absurd ⟨e, (hiff e).mp hr⟩ hno
    | error fault => exact ⟨fault, rfl⟩

/-- An element with a reference, an element and a section in it, behind a comment and a space. -/
theorem spells_nested :
    Matched [] [.aside, .text [' '], .start ⟨['a'], " x='1'".toList⟩, .text "b&lt;".toList,
        .empty ⟨['c'], []⟩, .literal ['&'], .stop ['a']] ∧
      Spells [.aside, .text [' '], .start ⟨['a'], " x='1'".toList⟩, .text "b&lt;".toList,
        .empty ⟨['c'], []⟩, .literal ['&'], .stop ['a']]
        ⟨"a", [("x", "1")], [⟨"c", [], [], ""⟩], "b<&"⟩ := by
  have hm : Matched [] [.aside, .text [' '], .start ⟨['a'], " x='1'".toList⟩,
      .text "b&lt;".toList, .empty ⟨['c'], []⟩, .literal ['&'], .stop ['a']] := ⟨rfl, trivial⟩
  exact ⟨hm, ((ofEvents_eq_ok_iff_spells hm).1 _).mp rfl⟩

end ApiClient.Xml
