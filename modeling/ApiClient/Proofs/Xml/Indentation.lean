import Mathlib.Logic.Relation
import ApiClient.Proofs.Xml.Lockstep
import ApiClient.Proofs.Xml.Reading

/-!
# White space next to tags

* `Scanner.Pending`, `Scanner.Scans.exists_pending`: of a scan only the character data at its end
  depends on what follows;
* `Scanner.exists_scans_behind`, `Scanner.exists_scans_before`: the events of a text with white
  space behind a tag and in front of one;
* `Indents`: texts of which one has more white space next to a tag of an element;
* `Builder.run_behind`, `Builder.run_before`: builders take such events side by side;
* `Indents.parse_iff`: the white space changes nothing in the document;
* `insignificant_parts`: what does not count in a tree or a text does not change the document.
-/

namespace ApiClient.Xml

namespace Scanner

/-! ## Pending character data -/

/-- The event of character data, if there is any. -/
def textEvents (raw : List Char) : List Event := if raw = [] then [] else [.text raw]

@[simp] theorem textEvents_nil : textEvents [] = [] := rfl

theorem textEvents_of_ne_nil {raw : List Char} (h : raw ≠ []) : textEvents raw = [.text raw] :=
  if_neg h

theorem scans_textEvents {raw rest : List Char} (hraw : '<' ∉ raw)
    (hrest : ∀ c, rest.head? = some c → c = '<') (names : List (List Char)) :
    Scans ⟨raw ++ rest, names⟩ (textEvents raw) ⟨rest, names⟩ := by
  by_cases hne : raw = []
  · subst hne
    exact .done _
  · rw [textEvents_of_ne_nil hne]
    exact .single (next_raw hne hraw hrest names)

/-- A scan that reads `read`, whatever comes then, and behind it the character data `raw`. -/
structure Pending (scanner : Scanner) (read : List Char) (first : List Event) (raw : List Char)
    (last : Scanner) : Prop where
  rest_eq : scanner.rest = read ++ (raw ++ last.rest)
  not_mem : '<' ∉ raw
  scans : ∀ more, Scans ⟨read ++ more, scanner.openNames⟩ first ⟨more, last.openNames⟩

theorem Scans.eq_of_nil {scanner last : Scanner} (h : Scans scanner [] last) : scanner = last := by
  cases h
  rfl

/-- Every scan is pending at the character data at its end, if there is any. Of everything else it
does not matter what follows it. -/
theorem Scans.exists_pending {scanner last : Scanner} {events : List Event}
    (h : Scans scanner events last) :
    ∃ read first raw, events = first ++ textEvents raw ∧ Pending scanner read first raw last := by
  induction h with
  | done scanner => exact ⟨[], [], [], rfl, rfl, by simp, fun more => .done _⟩
  | @event scanner after last event events hn _ ih =>
    obtain ⟨read, first, raw, rfl, hrest, hraw, hscans⟩ := ih
    rcases next_cases hn with ⟨raw', rfl, hne', hraw', rfl, hhead⟩ | ⟨content, hcontent, hmarkup⟩
    · rw [hrest] at hhead ⊢
      cases first with
      | nil =>
        -- the markup behind the character data has not been read, so that nothing has
        obtain ⟨hread, hnames⟩ := Scanner.mk.inj (hscans []).eq_of_nil
        obtain rfl : read = [] := by simpa using hread
        obtain rfl : raw = [] := by
          cases raw with
          | nil => rfl
          | cons c raw => exact absurd (hhead c rfl ▸ List.mem_cons_self) hraw
        refine ⟨[], [], raw', ?_, rfl, hraw', fun more => ?_⟩
        · rw [textEvents_of_ne_nil hne', textEvents_nil]
          rfl
        · rw [hnames]
          exact .done _
      | cons event first =>
        have hlength := (hscans []).length_le
        obtain ⟨c, t, rfl⟩ : ∃ c t, read = c :: t := by
          refine List.exists_cons_of_ne_nil fun hnil => ?_
          simp [hnil] at hlength
        obtain rfl : c = '<' := hhead c rfl
        refine ⟨raw' ++ '<' :: t, .text raw' :: event :: first, raw, rfl, by simp, hraw,
          fun more => ?_⟩
        have hnext : next ⟨raw' ++ ('<' :: t ++ more), after.openNames⟩ = .event (.text raw') _ :=
          next_raw hne' hraw' (by simp) after.openNames
        rw [List.append_assoc]
        exact .event hnext (hscans more)
    · refine ⟨'<' :: (content ++ read), event :: first, raw, rfl, ?_, hraw, fun more => ?_⟩
      · rw [hcontent, hrest]
        simp
      · have hnext := hmarkup.any_rest (read ++ more)
        simp only [List.cons_append, List.append_assoc]
        exact .event hnext (hscans more)

/-! ## White space in the text -/

theorem not_mem_append {s t : List Char} (hs : '<' ∉ s) (ht : '<' ∉ t) : '<' ∉ s ++ t := by
  rw [List.mem_append, not_or]
  exact ⟨hs, ht⟩

theorem length_withoutMark_le (s : List Char) : (withoutMark s).length ≤ s.length := by
  cases s with
  | nil => rfl
  | cons c s =>
    simp only [withoutMark]
    split_ifs <;> simp

section

variable {before after gap : List Char} (hgap : ∀ c ∈ gap, Text.isBlank c = true)
include hgap

theorem not_mem_of_isBlank : '<' ∉ gap := fun hc => Text.ne_of_test (hgap _ hc) rfl rfl

/-- The mark of the byte order is no white space. -/
theorem withoutMark_insert {read : List Char}
    (h : withoutMark (before ++ after) = read ++ after) :
    withoutMark (before ++ (gap ++ after)) = read ++ (gap ++ after) := by
  cases before with
  | nil =>
    obtain rfl : read = [] := by
      have hle := length_withoutMark_le after
      have hlength := congrArg List.length h
      simp only [List.nil_append, List.length_append] at hlength
      exact List.length_eq_zero_iff.mp (by omega)
    cases gap with
    | nil => exact h
    | cons c gap => exact if_neg (Text.ne_of_test (hgap c List.mem_cons_self) rfl)
  | cons c before =>
    simp only [List.cons_append, withoutMark] at h ⊢
    split_ifs at h ⊢ with hc
    · rw [List.append_cancel_right h]
    · have hread : c :: before = read := List.append_cancel_right h
      rw [← hread]
      rfl

/-- Behind the events up to a place, white space at this place only joins the character data in
front of it. -/
theorem exists_scans_insert {events : List Event} {names : List (List Char)}
    (h : Scans (start (before ++ after)) events ⟨after, names⟩) :
    ∃ first raw, events = first ++ textEvents raw ∧ '<' ∉ raw ∧
      Scans (start (before ++ (gap ++ after))) first ⟨raw ++ (gap ++ after), names⟩ := by
  obtain ⟨read, first, raw, hevents, hrest, hraw, hscans⟩ := h.exists_pending
  have hread : withoutMark (before ++ after) = (read ++ raw) ++ after := by
    rw [List.append_assoc]
    exact hrest
  have hscan := hscans (raw ++ (gap ++ after))
  rw [← List.append_assoc, ← withoutMark_insert hgap hread] at hscan
  exact ⟨first, raw, hevents, hraw, hscan⟩

end

section

variable {before after gap : List Char} {events : List Event} {event : Event}
  {names : List (List Char)}

/-- White space behind a tag is at the beginning of the character data that follows. -/
theorem exists_scans_behind
    (h : Scans (start (before ++ after)) (events ++ [event]) ⟨after, names⟩)
    (htag : event.IsTag) (hgap : ∀ c ∈ gap, Text.isBlank c = true) :
    ∃ raw last, Scans (start (before ++ after)) (events ++ [event] ++ textEvents raw) last ∧
      Scans (start (before ++ (gap ++ after)))
        (events ++ [event] ++ textEvents (gap ++ raw)) last := by
  obtain ⟨first, pending, hevents, -, hscan⟩ := exists_scans_insert hgap h
  -- nothing is pending behind a tag
  obtain rfl : pending = [] := by
    by_contra hne
    rw [textEvents_of_ne_nil hne] at hevents
    obtain ⟨-, rfl⟩ := List.append_singleton_inj.mp hevents
    exact htag
  obtain rfl : events ++ [event] = first := by simpa using hevents
  rw [List.nil_append] at hscan
  have hraw := not_mem_takeWhile after
  have hhead : ∀ c, (after.dropWhile (· != '<')).head? = some c → c = '<' :=
    fun c hc => eq_of_head?_dropWhile hc
  have htext := scans_textEvents hraw hhead names
  have hmore := scans_textEvents (not_mem_append (not_mem_of_isBlank hgap) hraw) hhead names
  rw [List.append_assoc] at hmore
  rw [List.takeWhile_append_dropWhile] at htext hmore
  exact ⟨_, _, h.append htext, hscan.append hmore⟩

/-- White space in front of a tag is at the end of the character data before it. -/
theorem exists_scans_before {last : Scanner}
    (h : Scans (start (before ++ after)) events ⟨after, names⟩)
    (hnext : next ⟨after, names⟩ = .event event last) (htag : event.IsTag)
    (hgap : ∀ c ∈ gap, Text.isBlank c = true) :
    ∃ first raw, Scans (start (before ++ after)) (first ++ textEvents raw ++ [event]) last ∧
      Scans (start (before ++ (gap ++ after)))
        (first ++ textEvents (raw ++ gap) ++ [event]) last := by
  obtain ⟨first, raw, rfl, hraw, hscan⟩ := exists_scans_insert hgap h
  have hhead : ∀ c, after.head? = some c → c = '<' := by
    rcases next_cases hnext with ⟨raw', rfl, -⟩ | ⟨content, hcontent, -⟩
    · exact htag.elim
    · intro c hc
      change after = _ at hcontent
      rw [hcontent] at hc
      exact (Option.some.inj hc).symm
  have htext := scans_textEvents (not_mem_append hraw (not_mem_of_isBlank hgap)) hhead names
  rw [List.append_assoc] at htext
  exact ⟨first, raw, h.append (.single hnext), (hscan.append htext).append (.single hnext)⟩

end

end Scanner

open Scanner

/-- The text `t` is `s` with white space put next to a tag of an element. The place is one that the
scanner comes to, since what looks like a tag in a comment or in a value is none. -/
inductive Indents (s t : String) : Prop
  /-- White space behind a tag. -/
  | behind {before after gap : List Char} {events : List Event} {event : Event}
      {names : List (List Char)} (hs : s.toList = before ++ after)
      (ht : t.toList = before ++ (gap ++ after))
      (h : Scans (start (before ++ after)) (events ++ [event]) ⟨after, names⟩)
      (htag : event.IsTag) (hgap : ∀ c ∈ gap, Text.isBlank c = true)
  /-- White space in front of a tag. -/
  | before {before after gap : List Char} {events : List Event} {event : Event}
      {names : List (List Char)} {last : Scanner} (hs : s.toList = before ++ after)
      (ht : t.toList = before ++ (gap ++ after))
      (h : Scans (start (before ++ after)) events ⟨after, names⟩)
      (hnext : next ⟨after, names⟩ = .event event last) (htag : event.IsTag)
      (hgap : ∀ c ∈ gap, Text.isBlank c = true)

/-! ## White space in the events -/

namespace Builder

theorem run_textEvents (b : Builder) (raw : List Char) :
    b.run (textEvents raw) = b.step (.text raw) := by
  by_cases hne : raw = []
  · subst hne
    obtain ⟨opened, root?⟩ := b
    cases opened with
    | nil => rfl
    | cons top outer =>
      have hstep : step ⟨top :: outer, root?⟩ (.text []) = addText ⟨top :: outer, root?⟩ [] := rfl
      rw [hstep, addText_of_opened rfl, String.ofList_nil, Element.extend_nil]
      rfl
  · rw [textEvents_of_ne_nil hne, run_cons]
    cases b.step (.text raw) <;> rfl

section

variable {gap : List Char} (hgap : ∀ c ∈ gap, Text.isBlank c = true) {event : Event}
  (htag : event.IsTag) (b : Builder) (events : List Event) (raw : List Char)
include hgap htag

theorem run_behind :
    Agree (Follows SameBehind) (b.run (events ++ [event] ++ textEvents raw))
      (b.run (events ++ [event] ++ textEvents (gap ++ raw))) := by
  have htags : Agree (fun b b' => b = b' ∧ b.Fresh) (b.run (events ++ [event]))
      (b.run (events ++ [event])) := by
    refine .self fun b' hb' => ⟨rfl, ?_⟩
    rw [run_append] at hb'
    obtain ⟨b₁, -, hb'⟩ := bind_eq_ok_iff.mp hb'
    rw [run_cons] at hb'
    obtain ⟨b₂, hstep, hb'⟩ := bind_eq_ok_iff.mp hb'
    cases hb'
    exact fresh_of_step_tag htag hstep
  rw [run_append b (events ++ [event]), run_append b (events ++ [event])]
  refine htags.bind ?_
  rintro b' _ ⟨rfl, hfresh⟩
  rw [run_textEvents, run_textEvents]
  exact agree_behind_tag hgap hfresh raw

theorem run_before :
    Agree (Follows SameBehind) (b.run (events ++ textEvents raw ++ [event]))
      (b.run (events ++ textEvents (raw ++ gap) ++ [event])) := by
  have htexts : Agree (Follows SameInside) (b.run (events ++ textEvents raw))
      (b.run (events ++ textEvents (raw ++ gap))) := by
    rw [run_append, run_append]
    refine (Agree.refl (b.run events)).bind ?_
    rintro b' _ rfl
    rw [run_textEvents, run_textEvents]
    exact agree_before_tag hgap b' raw
  rw [run_append b (events ++ textEvents raw), run_append b (events ++ textEvents (raw ++ gap))]
  refine htexts.bind fun b b' h => ?_
  rw [run_cons, run_cons]
  exact (h.step_tag htag).bind fun _ _ h => .ok h

end

end Builder

/-! ## White space in a document -/

/-- The document of a text is that of another one that is read up to the same place, if the same
events behind it give the same. -/
theorem parse_of_scans {s t : String} {events events' : List Event} {last : Scanner}
    {d : Document} (hs : Scans (start s.toList) events last)
    (ht : Scans (start t.toList) events' last)
    (himp : ∀ more, Element.document <$> Element.ofEvents (events ++ more) = .ok d →
      Element.document <$> Element.ofEvents (events' ++ more) = .ok d)
    (h : parse s = .ok d) : parse t = .ok d := by
  obtain ⟨e, he, hd⟩ := map_eq_ok_iff.mp h
  obtain ⟨all, names, hall, hevents⟩ := Element.parse_eq_ok_iff.mp he
  obtain ⟨more, rfl, hmore⟩ := hs.exists_more hall
  obtain ⟨e', he', hd'⟩ := map_eq_ok_iff.mp (himp more (map_eq_ok_iff.mpr ⟨e, hevents, hd⟩))
  have hparse := Element.parse_eq_ok_iff.mpr ⟨events' ++ more, names, ht.append hmore, he'⟩
  exact map_eq_ok_iff.mpr ⟨e', hparse, hd'⟩

theorem parse_eq_ok_iff_of_agree {s t : String} {events events' : List Event} {last : Scanner}
    (hs : Scans (start s.toList) events last) (ht : Scans (start t.toList) events' last)
    (h : Agree (Follows SameBehind) (Builder.run {} events) (Builder.run {} events'))
    (d : Document) : parse s = .ok d ↔ parse t = .ok d := by
  have hmore : ∀ more, Element.document <$> Element.ofEvents (events ++ more) = .ok d ↔
      Element.document <$> Element.ofEvents (events' ++ more) = .ok d := by
    intro more
    have hagree : Agree Respaced (Element.ofEvents (events ++ more))
        (Element.ofEvents (events' ++ more)) := by
      rw [Element.ofEvents_eq, Element.ofEvents_eq, Builder.run_append, Builder.run_append]
      exact (h.bind fun _ _ h => h.run more).bind fun _ _ h => h.finish
    exact hagree.map_eq_ok_iff fun _ _ h => h.document_eq
  exact ⟨parse_of_scans hs ht fun more => (hmore more).mp,
    parse_of_scans ht hs fun more => (hmore more).mpr⟩

/-- White space next to a tag does not change the document. -/
theorem Indents.parse_iff {s t : String} (h : Indents s t) (d : Document) :
    parse s = .ok d ↔ parse t = .ok d := by
  cases h with
  | behind hs ht h htag hgap =>
    obtain ⟨raw, last, hscan, hscan'⟩ := exists_scans_behind h htag hgap
    rw [← hs] at hscan
    rw [← ht] at hscan'
    exact parse_eq_ok_iff_of_agree hscan hscan' (Builder.run_behind hgap htag {} _ raw) d
  | before hs ht h hnext htag hgap =>
    obtain ⟨first, raw, hscan, hscan'⟩ := exists_scans_before h hnext htag hgap
    rw [← hs] at hscan
    rw [← ht] at hscan'
    exact parse_eq_ok_iff_of_agree hscan hscan' (Builder.run_before hgap htag {} first raw) d

/-- What does not count in a tree does not change its document, and white space next to the tags of
a text, in any number of places, does not change the document of the text. -/
theorem insignificant_parts :
    (∀ e e' : Element, Alike .body e e' → e.body = e'.body) ∧
      ∀ s t : String, Relation.ReflTransGen Indents s t →
        ∀ d : Document, parse s = .ok d ↔ parse t = .ok d := by
  refine ⟨fun _ _ h => h.document_eq, fun s t h d => ?_⟩
  induction h with
  | refl => rfl
  | tail _ h ih => exact ih.trans (h.parse_iff d)

/-- Two rosters that differ in tags, in attributes and in white space, and a text that is written on
one line or on three. -/
theorem insignificant_parts_roster :
    Element.body ⟨"crew", [("type", "array"), ("page", "2")],
        [⟨"member", [("type", "person"), ("id", "7")],
            [⟨"name", [("lang", "en")], [], "Ada"⟩, ⟨"tags", [("type", "array")], [], " "⟩], "x"⟩,
          ⟨"member", [("type", "text")], [], " Bob\n"⟩], "\n"⟩ =
      Element.body ⟨"team", [("type", "array")],
        [⟨"person", [("id", "7")],
            [⟨"name", [("lang", "en")], [], "\tAda"⟩, ⟨"tags", [("type", "array")], [], ""⟩], ""⟩,
          ⟨"guest", [], [], "Bob"⟩], ""⟩ ∧
      parse "<a>\n <b>x</b>\n</a>" =
        .ok (.map [("response", .map [("b", .map [("value", .text "x")])])]) := by
  refine ⟨insignificant_parts.1 _ _ ?_, (insignificant_parts.2 "<a><b>x</b></a>" _ ?_ _).mp ?_⟩
  · refine .array rfl rfl nofun (.cons rfl (.compound rfl rfl rfl ?_) (.cons rfl ?_ .nil))
    · have htext : SameInside "Ada".toList "\tAda".toList :=
        ⟨[], [], ['\t'], [], "Ada".toList, rfl, rfl, List.all_eq_true.mp rfl⟩
      exact .cons rfl (.leaf rfl rfl rfl htext)
        (.cons rfl (.array rfl rfl (fun _ => rfl) .nil) .nil)
    · have htext : SameInside " Bob\n".toList "Bob".toList :=
        ⟨[' '], ['\n'], [], [], "Bob".toList, rfl, rfl, List.all_eq_true.mp rfl⟩
      exact .leaf rfl rfl rfl htext
  · have hopened : Scans (start ("<a>".toList ++ "<b>x</b></a>".toList))
        ([] ++ [.start ⟨['a'], []⟩]) ⟨"<b>x</b></a>".toList, [['a']]⟩ := .single rfl
    have hread : Scans (start ("<a>\n <b>x</b>".toList ++ "</a>".toList))
        [.start ⟨['a'], []⟩, .text ['\n', ' '], .start ⟨['b'], []⟩, .text ['x'], .stop ['b']]
        ⟨"</a>".toList, [['a']]⟩ :=
      .event rfl (.event rfl (.event rfl (.event rfl (.single rfl))))
    have hgap : ∀ c ∈ ['\n', ' '], Text.isBlank c = true := List.all_eq_true.mp rfl
    have hgap' : ∀ c ∈ ['\n'], Text.isBlank c = true := List.all_eq_true.mp rfl
    have hbehind : Indents "<a><b>x</b></a>" "<a>\n <b>x</b></a>" :=
      .behind (by rfl) (by rfl) hopened trivial hgap
    have hbefore : Indents "<a>\n <b>x</b></a>" "<a>\n <b>x</b>\n</a>" :=
      .before (by rfl) (by rfl) hread rfl trivial hgap'
    exact .tail (.single hbehind) hbefore
  · have hparse : Element.parse "<a><b>x</b></a>".toList =
        .ok ⟨"a", [], [⟨"b", [], [], "x"⟩], ""⟩ := rfl
    exact map_eq_ok_iff.mpr ⟨_, hparse, rfl⟩

end ApiClient.Xml
