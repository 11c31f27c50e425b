import Mathlib.Logic.Relation
import ApiClient.Proofs.Xml.Building
import ApiClient.Proofs.Xml.Scanning
import ApiClient.Proofs.Xml.Wording

/-!
# The elements that are open

A text is read in rounds: an event is taken off the text and put into the tree before the next one
is looked for. The scanner keeps the names of the start tags that are open, and the builder their
elements.

* `Reading`, `Reading.round`, `Passes`: a text that is being read, and what its rounds lead to;
* `exists_passes_over`: the last round of a text comes to what the text spells;
* `Expected`: computations that meet no end tag without an element;
* `Builder.expected_step`: an event moves the names of the elements as it moves those of the tags;
* `Passes.inStep`: behind every round the elements are those of the start tags;
* `open_elements_in_step`: so every end tag meets its element, and none is unexpected.
-/

namespace ApiClient.Xml

/-! ## Rounds -/

/-- A text that is being read: what is left of it, and the tree as far as it has come. -/
structure Reading where
  scanner : Scanner
  builder : Builder

/-- What a round comes to. -/
inductive Round where
  | goesOn (reading : Reading)
  | over (result : Except Fault Element)

namespace Reading

/-- A text before its first round. -/
def start (s : List Char) : Reading := { scanner := .start s, builder := {} }

/-- One round of reading a text of `size` bytes. An event that does not fit into the tree ends the
reading, although the scanner has gone past it. -/
def round (size : Nat) (r : Reading) : Round :=
  match r.scanner.next with
  | .ended => .over r.builder.finish
  | .failed fault rest => .over (.error (.markup fault (size - Text.width rest)))
  | .event event scanner =>
    match r.builder.step event with
    | .ok builder => .goesOn { scanner, builder }
    | .error fault => .over (.error fault)

/-- A round in a text of `size` bytes with which the reading goes on. -/
def GoesOn (size : Nat) (r r' : Reading) : Prop := r.round size = .goesOn r'

end Reading

/-- How many bytes of a text are read. -/
def byteCount (s : List Char) : Nat := Text.width (Scanner.withoutMark s)

/-- The places that the reading of a text passes through, from its beginning on. -/
def Passes (s : List Char) : Reading → Prop :=
  Relation.ReflTransGen (Reading.GoesOn (byteCount s)) (.start s)

/-! ## The last round -/

/-- What a text of `size` bytes comes to, with these events to come and this fault behind them. -/
def Builder.conclude (b : Builder) (size : Nat) (events : List Event)
    (failure? : Option Scanner.Failure) : Except Fault Element := do
  let b ← b.run events
  match failure? with
  | some failure => throw (.markup failure.fault (size - Text.width failure.rest))
  | none => b.finish

theorem Builder.conclude_cons (b : Builder) (size : Nat) (event : Event) (events : List Event)
    (failure? : Option Scanner.Failure) :
    b.conclude size (event :: events) failure? =
      (b.step event).bind (·.conclude size events failure?) := by
  rw [conclude, run_cons]
  cases b.step event <;> rfl

theorem Element.parse_eq_conclude (s : List Char) :
    Element.parse s =
      ({} : Builder).conclude (byteCount s) (Scanner.events s).1 (Scanner.events s).2 := rfl

/-- Reading goes on up to a round that comes to what all events come to. -/
theorem Reading.exists_over {size rounds : Nat} {r : Reading}
    (h : r.scanner.rest.length ≤ rounds) :
    ∃ last, Relation.ReflTransGen (GoesOn size) r last ∧
      last.round size = .over (r.builder.conclude size (Scanner.eventsIn rounds r.scanner).1
        (Scanner.eventsIn rounds r.scanner).2) := by
  induction rounds generalizing r with
  | zero =>
    have hn : r.scanner.next = .ended := by
      simp only [Scanner.next, List.length_eq_zero_iff.mp (Nat.le_zero.mp h)]
    exact ⟨r, .refl, by simp only [round, hn]; rfl⟩
  | succ rounds ih =>
    rw [Scanner.eventsIn]
    cases hn : r.scanner.next with
    | ended => exact ⟨r, .refl, by simp only [round, hn]; rfl⟩
    | failed fault rest => exact ⟨r, .refl, by simp only [round, hn]; rfl⟩
    | event event scanner =>
      simp only [Builder.conclude_cons]
      cases hs : r.builder.step event with
      -- the events behind one that does not fit are never looked for
      | error fault => exact ⟨r, .refl, by simp only [round, hn, hs]; rfl⟩
      | ok builder =>
        have hlt := (Scanner.of_next hn).1
        obtain ⟨last, hpasses, hover⟩ := ih (r := ⟨scanner, builder⟩) (by simp only; omega)
        exact ⟨last, .head (by simp only [GoesOn, round, hn, hs]) hpasses, hover⟩

/-- The last round of a text comes to what the text spells. -/
theorem exists_passes_over (s : List Char) :
    ∃ r, Passes s r ∧ r.round (byteCount s) = .over (Element.parse s) := by
  rw [Element.parse_eq_conclude]
  exact Reading.exists_over le_rfl

/-! ## Computations without an unexpected end tag -/

section Expected

variable {α β ε : Type} {P : α → Prop} {Q : β → Prop} {x : Except Fault α}

/-- A computation that does not fail with an end tag without an element, and whose result satisfies
`P`. -/
def Expected (P : α → Prop) : Except Fault α → Prop
  | .ok a => P a
  | .error fault => fault ≠ .unexpectedEnd

theorem Expected.bind (hx : Expected P x) {f : α → Except Fault β}
    (hf : ∀ a, P a → Expected Q (f a)) : Expected Q (x >>= f) := by
  cases x with
  | ok a => exact hf a hx
  | error fault => exact hx

theorem expected_mapError {f : ε → Fault} (hf : ∀ e, f e ≠ .unexpectedEnd) (x : Except ε α) :
    Expected (fun _ => True) (x.mapError f) := by
  cases x with
  | ok a => trivial
  | error e => exact hf e

end Expected

namespace Builder

variable {b : Builder} {event : Event} {after : List (List Char)}

/-- The names of the elements without an end tag so far, the innermost first. -/
def openNames (b : Builder) : List (List Char) := b.opened.map (·.name.toList)

theorem openNames_close (b : Builder) (e : Element) : (b.close e).openNames = b.openNames := by
  obtain ⟨opened, root?⟩ := b
  cases opened <;> rfl

theorem expected_mayBegin (b : Builder) : Expected (fun _ => True) b.mayBegin := by
  rw [mayBegin]
  split_ifs
  · rintro ⟨⟩
  · rintro ⟨⟩
  · trivial

theorem expected_element (tag : Tag) :
    Expected (fun e => e.name = String.ofList tag.name) (element tag) :=
  (expected_mapError nofun tag.attributes).bind fun _ _ => rfl

theorem expected_addText (b : Builder) (s : List Char) :
    Expected (·.openNames = b.openNames) (b.addText s) := by
  obtain ⟨opened, root?⟩ := b
  cases opened with
  | nil =>
    simp only [addText]
    split_ifs
    · rfl
    · rintro ⟨⟩
  | cons e outer => rfl

/-- An end tag whose name is that of the innermost open element closes it. -/
theorem step_stop {name : List Char} (h : (Event.stop name).Nests b.openNames after) :
    ∃ e outer, b.opened = e :: outer ∧ e.name = String.ofList name ∧
      b.step (.stop name) = .ok (close { b with opened := outer } e) ∧
      (close { b with opened := outer } e).openNames = after := by
  obtain ⟨opened, root?⟩ := b
  cases opened with
  | nil => cases h
  | cons e outer =>
    obtain ⟨hname, houter⟩ := List.cons_eq_cons.mp h
    refine ⟨e, outer, rfl, ?_, rfl, ?_⟩
    · rw [← hname, String.ofList_toList]
    · rw [openNames_close]
      exact houter

/-- An event moves the names of the open elements as it moves those of the open tags. -/
theorem expected_step (h : event.Nests b.openNames after) :
    Expected (·.openNames = after) (b.step event) := by
  cases event with
  | start tag =>
    refine b.expected_mayBegin.bind fun _ _ => (expected_element tag).bind fun e he => ?_
    change e.name.toList :: b.openNames = after
    rw [he, String.toList_ofList]
    exact h.symm
  | empty tag =>
    refine b.expected_mayBegin.bind fun _ _ => (expected_element tag).bind fun e _ => ?_
    exact (b.openNames_close e).trans h.symm
  | stop name =>
    obtain ⟨e, outer, -, -, hstep, hnames⟩ := step_stop h
    rw [hstep]
    exact hnames
  | text raw =>
    cases h
    exact (expected_mapError nofun (unescape raw)).bind fun s _ => b.expected_addText s
  | literal content =>
    cases h
    exact b.expected_addText content
  | aside => exact h.symm

theorem expected_finish (b : Builder) : Expected (fun _ => True) b.finish := by
  obtain ⟨opened, root?⟩ := b
  cases opened with
  | nil =>
    cases root? with
    | none => rintro ⟨⟩
    | some root => trivial
  | cons e outer => rintro ⟨⟩

end Builder

/-! ## Readings in step -/

namespace Reading

variable {size : Nat} {r r' : Reading}

/-- The elements that are open are those of the start tags that are open. -/
def InStep (r : Reading) : Prop := r.builder.openNames = r.scanner.openNames

theorem inStep_start (s : List Char) : (start s).InStep := rfl

theorem InStep.expected_step (h : r.InStep) {event : Event} {after : Scanner}
    (hn : r.scanner.next = .event event after) :
    Expected (·.openNames = after.openNames) (r.builder.step event) :=
  Builder.expected_step (h ▸ (Scanner.of_next hn).2)

theorem InStep.goesOn (h : r.InStep) (hr : r.GoesOn size r') : r'.InStep := by
  rw [GoesOn, round] at hr
  split at hr
  · cases hr
  · cases hr
  · next event scanner hn =>
    have hstep := h.expected_step hn
    split at hr
    · next builder hs =>
      cases hr
      rwa [hs] at hstep
    · cases hr

theorem InStep.over (h : r.InStep) {result : Except Fault Element}
    (hr : r.round size = .over result) : Expected (fun _ => True) result := by
  rw [round] at hr
  split at hr
  · cases hr
    exact r.builder.expected_finish
  · cases hr
    rintro ⟨⟩
  · next event scanner hn =>
    have hstep := h.expected_step hn
    split at hr
    · cases hr
    · next fault hs =>
      cases hr
      rwa [hs] at hstep

end Reading

/-- Behind every round the elements that are open are those of the start tags. -/
theorem Passes.inStep {s : List Char} {r : Reading} (h : Passes s r) : r.InStep := by
  induction h with
  | refl => exact Reading.inStep_start s
  | tail _ hround ih => exact ih.goesOn hround

/-- The reading of a text ends in what the text spells. On the way there the open elements are those
of the start tags that the scanner has open, so the element that an end tag closes is there and has
its name, and no text has the fault of an end tag without an element. -/
theorem open_elements_in_step (s : List Char) :
    (∃ r, Passes s r ∧ r.round (byteCount s) = .over (Element.parse s)) ∧
      (∀ r, Passes s r →
        r.builder.opened.map (·.name.toList) = r.scanner.openNames ∧
          ∀ name after, r.scanner.next = .event (.stop name) after →
            ∃ e outer, r.builder.opened = e :: outer ∧ e.name = String.ofList name ∧
              r.round (byteCount s) =
                .goesOn ⟨after, Builder.close { r.builder with opened := outer } e⟩) ∧
        ∀ fault, Element.parse s = .error fault →
          fault.message ≠ Fault.unexpectedEnd.message := by
  obtain ⟨last, hlast, hover⟩ := exists_passes_over s
  refine ⟨⟨last, hlast, hover⟩, fun r hr => ⟨hr.inStep, fun name after hn => ?_⟩, ?_⟩
  · have hnests : (Event.stop name).Nests r.builder.openNames after.openNames := by
      rw [hr.inStep]
      exact (Scanner.of_next hn).2
    obtain ⟨e, outer, hopened, hname, hstep, -⟩ := Builder.step_stop hnests
    exact ⟨e, outer, hopened, hname, by simp only [Reading.round, hn, hstep]⟩
  · intro fault hfault
    have hexpected := hlast.inStep.over hover
    rw [hfault] at hexpected
    exact Fault.message_ne hexpected

/-- An end tag that closes its element, and behind it one that closes nothing. -/
theorem open_elements_in_step_twice :
    (∃ r after, Passes "<a></a></a>".toList r ∧ r.scanner.next = .event (.stop ['a']) after ∧
      ∃ e outer, r.builder.opened = e :: outer ∧ e.name = "a" ∧
        r.round 11 = .goesOn ⟨after, Builder.close { r.builder with opened := outer } e⟩) ∧
      Element.parse "<a></a></a>".toList = .error (.markup (.unmatched ['a']) 11) ∧
        (Fault.markup (.unmatched ['a']) 11).message ≠ Fault.unexpectedEnd.message := by
  have hpasses : Passes "<a></a></a>".toList
      ⟨⟨"</a></a>".toList, [['a']]⟩, { opened := [⟨"a", [], [], ""⟩] }⟩ := .tail .refl rfl
  have hnext : Scanner.next ⟨"</a></a>".toList, [['a']]⟩ =
      .event (.stop ['a']) ⟨"</a>".toList, []⟩ := rfl
  have hparse : Element.parse "<a></a></a>".toList = .error (.markup (.unmatched ['a']) 11) := rfl
  obtain ⟨-, hopen, hfault⟩ := open_elements_in_step "<a></a></a>".toList
  exact ⟨⟨_, _, hpasses, hnext, (hopen _ hpasses).2 _ _ hnext⟩, hparse, hfault _ hparse⟩

end ApiClient.Xml
