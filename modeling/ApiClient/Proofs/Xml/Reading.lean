import ApiClient.Proofs.Xml.Acceptance
import ApiClient.Proofs.Xml.Scanning

/-!
# Reading a text

* `Element.parse_of_events`: a text without a fault in its markup gives what its events give;
* `Element.parse_eq_ok_iff`: the trees of a text are those of the events up to its end;
* `Element.spells_of_parse`: the events of a text with a tree spell this tree.
-/

namespace ApiClient.Xml.Element

open Scanner

theorem parse_of_events {s : List Char} {events : List Event}
    (h : Scanner.events s = (events, none)) : Element.parse s = Element.ofEvents events := by
  simp only [Element.parse, h]
  rfl

theorem events_of_parse {s : List Char} {e : Element} (h : Element.parse s = .ok e) :
    ∃ events, Scanner.events s = (events, none) := by
  cases hs : Scanner.events s with
  | mk events failure? =>
    cases failure? with
    | none => exact ⟨events, rfl⟩
    | some failure =>
      simp only [Element.parse, hs] at h
      obtain ⟨b, -, h⟩ := bind_eq_ok_iff.mp h
      cases h

/-- A text has the tree of its events, if they go up to its end. -/
theorem parse_eq_ok_iff {s : List Char} {e : Element} :
    Element.parse s = .ok e ↔
      ∃ events names, Scans (start s) events ⟨[], names⟩ ∧ Element.ofEvents events = .ok e := by
  constructor
  · intro h
    obtain ⟨events, hs⟩ := events_of_parse h
    obtain ⟨names, hscan⟩ := events_eq_iff.mp hs
    exact ⟨events, names, hscan, by rw [← parse_of_events hs, h]⟩
  · rintro ⟨events, names, hscan, h⟩
    rw [parse_of_events (events_eq_iff.mpr ⟨names, hscan⟩), h]

/-- The events of a text with a tree spell this tree. -/
theorem spells_of_parse {s : List Char} {e : Element} (h : Element.parse s = .ok e) :
    ∃ events, Spells events e := by
  obtain ⟨events, hs⟩ := events_of_parse h
  have hm : Matched [] events := by
    have hm := matched_events s
    rwa [hs] at hm
  rw [parse_of_events hs] at h
  have henclosed := enclosed_of_ofEvents hm h
  rw [ofEvents_of_enclosed henclosed] at h
  refine ⟨events, henclosed, ?_⟩
  by_contra hd
  rw [if_neg hd] at h
  cases h

end ApiClient.Xml.Element
