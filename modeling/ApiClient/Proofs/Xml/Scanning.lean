import ApiClient.Proofs.Text.Pieces
import ApiClient.Proofs.Xml.Cutting
import ApiClient.Proofs.Xml.Grammar

/-!
# Scanning a text

* `of_tag`, `of_markup`: what markup stands for does not depend on what follows it;
* `next_cases`, `of_next`: an event is taken off the text, and the names that are open move with it;
* `matched_events`: the end tags of every text match;
* `Scans`: the events between two places of a text, with `Scans.append` to go on;
* `events_of_scans`, `events_eq_iff`: events up to the end of a text are all its events.
-/

namespace ApiClient.Xml.Scanner

/-! ## Markup -/

/-- What can be said of an event of markup with `rest` behind it: it is no character data, does not
depend on the rest, and opens or closes a name if it is a start or an end tag. -/
structure OfMarkup (step : List Char → Step) (names : List (List Char)) (rest : List Char)
    (event : Event) (after : Scanner) : Prop where
  rest_eq : after.rest = rest
  not_text : ∀ raw, event ≠ .text raw
  any_rest : ∀ more, step more = .event event ⟨more, after.openNames⟩
  nests : event.Nests names after.openNames

theorem of_tag {names : List (List Char)} {content rest : List Char} {event : Event}
    {after : Scanner} (h : tag names content rest = .event event after) :
    OfMarkup (tag names content) names rest event after := by
  unfold tag at h
  split at h
  · cases names with
    | nil => cases h
    | cons expected names =>
      simp only at h
      split_ifs at h with he
      cases h
      exact ⟨rfl, nofun, fun more => by simp [tag, he], congrArg (· :: names) he.symm⟩
  · next hslash =>
    split_ifs at h with hlast
    · cases h
      exact ⟨rfl, nofun, fun more => by simp [tag, hlast], rfl⟩
    · cases h
      exact ⟨rfl, nofun, fun more => by simp [tag, hlast], rfl⟩

theorem of_markup {names : List (List Char)} {kind : Markup.Kind} {content rest : List Char}
    {event : Event} {after : Scanner} (h : markup names kind content rest = .event event after) :
    OfMarkup (markup names kind content) names rest event after := by
  cases kind with
  | tag => exact of_tag h
  | literal =>
    simp only [markup] at h
    split at h
    · next hliteral =>
      cases h
      exact ⟨rfl, nofun, fun more => by simp [markup, hliteral], rfl⟩
    · cases h
  | comment | instruction =>
    simp only [markup] at h
    split_ifs at h with hc
    cases h
    exact ⟨rfl, nofun, fun more => by simp [markup, hc], rfl⟩
  | doctype =>
    simp only [markup] at h
    split at h
    · next hdoctype =>
      split_ifs at h with hblank
      cases h
      exact ⟨rfl, nofun, fun more => by simp [markup, hdoctype, hblank], rfl⟩
    · cases h

theorem markup_ne_ended {names : List (List Char)} {kind : Markup.Kind} {content rest : List Char} :
    markup names kind content rest ≠ .ended := by
  intro h
  cases kind with
  | tag =>
    simp only [markup, tag] at h
    split at h
    · split at h
      · cases h
      · split_ifs at h
    · split_ifs at h
  | literal =>
    simp only [markup] at h
    split at h <;> cases h
  | doctype =>
    simp only [markup] at h
    split at h
    · split_ifs at h
    · cases h
  | comment | instruction =>
    simp only [markup] at h
    split_ifs at h

/-! ## One event -/

theorem next_text {c : Char} (hc : c ≠ '<') (s : List Char) (names : List (List Char)) :
    next ⟨c :: s, names⟩ =
      .event (.text ((c :: s).takeWhile (· != '<')))
        ⟨(c :: s).dropWhile (· != '<'), names⟩ := by
  unfold next
  split
  · next h => cases h
  · next h =>
    cases h
    exact absurd rfl hc
  · rfl

theorem next_markup {c : Char} {s content rest : List Char} {kind : Markup.Kind}
    {names : List (List Char)} (hk : Markup.kind? (c :: s) = .ok kind)
    (hcut : kind.cut (c :: s) = some (content, rest)) :
    next ⟨'<' :: c :: s, names⟩ = markup names kind content rest := by
  simp only [next, hk, hcut]

theorem not_mem_takeWhile (s : List Char) : '<' ∉ s.takeWhile (· != '<') := fun hmem => by
  simpa using List.mem_takeWhile_imp hmem

theorem eq_of_head?_dropWhile {s : List Char} {c : Char}
    (h : (s.dropWhile (· != '<')).head? = some c) : c = '<' := by
  have hnot := List.head?_dropWhile_not (· != '<') s
  rw [h] at hnot
  simpa using hnot

/-- Character data goes up to the next markup or the end. -/
theorem next_raw {raw rest : List Char} (hne : raw ≠ []) (hraw : '<' ∉ raw)
    (hrest : ∀ c, rest.head? = some c → c = '<') (names : List (List Char)) :
    next ⟨raw ++ rest, names⟩ = .event (.text raw) ⟨rest, names⟩ := by
  obtain ⟨c, s, rfl⟩ := List.exists_cons_of_ne_nil hne
  have hall : ∀ d ∈ c :: s, (d != '<') = true := Text.bne_of_not_mem hraw
  have hc : c ≠ '<' := bne_iff_ne.mp (hall c List.mem_cons_self)
  have hcut : rest.takeWhile (· != '<') = [] ∧ rest.dropWhile (· != '<') = rest := by
    cases rest with
    | nil => exact ⟨rfl, rfl⟩
    | cons d rest => simp [hrest d rfl]
  have h := next_text hc (s ++ rest) names
  rw [← List.cons_append, List.takeWhile_append_of_pos hall, List.dropWhile_append_of_pos hall,
    hcut.1, hcut.2, List.append_nil] at h
  exact h

/-- An event is character data up to the next markup or the end, or it is markup, which does not
depend on what follows it. -/
theorem next_cases {scanner after : Scanner} {event : Event}
    (h : scanner.next = .event event after) :
    (∃ raw, event = .text raw ∧ raw ≠ [] ∧ '<' ∉ raw ∧
      scanner = ⟨raw ++ after.rest, after.openNames⟩ ∧
      ∀ c, after.rest.head? = some c → c = '<') ∨
    ∃ content, scanner.rest = '<' :: (content ++ after.rest) ∧
      OfMarkup (fun more => next ⟨'<' :: (content ++ more), scanner.openNames⟩)
        scanner.openNames after.rest event after := by
  obtain ⟨text, names⟩ := scanner
  cases text with
  | nil => cases h
  | cons c s =>
    by_cases hc : c = '<'
    · subst hc
      cases s with
      | nil => cases h
      | cons c s =>
        simp only [next] at h
        cases hk : Markup.kind? (c :: s) with
        | error fault =>
          rw [hk] at h
          cases h
        | ok kind =>
          simp only [hk] at h
          cases hcut : kind.cut (c :: s) with
          | none =>
            rw [hcut] at h
            cases h
          | some cut =>
            obtain ⟨content, rest⟩ := cut
            simp only [hcut] at h
            obtain ⟨hrest, hnot, hany, hnests⟩ := of_markup h
            obtain ⟨hs, hmore⟩ := Markup.cut_eq_some hcut
            rw [hs] at hk
            refine .inr ⟨content ++ ['>'], by simp [hs, hrest], rfl, hnot, fun more => ?_, hnests⟩
            rw [← hany more]
            simp only [List.append_assoc, List.singleton_append]
            obtain ⟨d, t, hd⟩ : ∃ d t, content ++ '>' :: more = d :: t :=
              List.exists_cons_of_ne_nil (by simp)
            have hkind := Markup.kind_append hk more
            have hcut' := hmore more
            rw [hd] at hkind hcut' ⊢
            exact next_markup hkind hcut'
    · rw [next_text hc] at h
      cases h
      refine .inl ⟨_, rfl, ?_, ?_, ?_, ?_⟩
      · simp [hc]
      · exact not_mem_takeWhile _
      · rw [List.takeWhile_append_dropWhile]
      · exact fun d hd => eq_of_head?_dropWhile hd

theorem rest_eq_nil_of_ended {scanner : Scanner} (h : scanner.next = .ended) :
    scanner.rest = [] := by
  obtain ⟨rest, names⟩ := scanner
  cases rest with
  | nil => rfl
  | cons c s =>
    exfalso
    by_cases hc : c = '<'
    · subst hc
      cases s with
      | nil => cases h
      | cons c s =>
        simp only [next] at h
        split at h
        · cases h
        · split at h
          · cases h
          · exact markup_ne_ended h
    · rw [next_text hc] at h
      cases h

theorem of_next {scanner after : Scanner} {event : Event}
    (h : scanner.next = .event event after) :
    after.rest.length < scanner.rest.length ∧ event.Nests scanner.openNames after.openNames := by
  rcases next_cases h with ⟨raw, rfl, hne, -, rfl, -⟩ | ⟨content, hrest, hmarkup⟩
  · have hpos := List.length_pos_iff.mpr hne
    refine ⟨?_, rfl⟩
    rw [List.length_append]
    omega
  · refine ⟨?_, hmarkup.nests⟩
    rw [hrest, List.length_cons, List.length_append]
    omega

theorem matched_eventsIn (rounds : Nat) (scanner : Scanner) :
    Matched scanner.openNames (eventsIn rounds scanner).1 := by
  induction rounds generalizing scanner with
  | zero => trivial
  | succ rounds ih =>
    rw [eventsIn]
    cases h : scanner.next with
    | ended => trivial
    | failed fault rest => trivial
    | event event after => exact (of_next h).2.matched (ih after)

/-- The end tags of every text match. -/
theorem matched_events (s : List Char) : Matched [] (events s).1 :=
  matched_eventsIn _ (start s)

/-! ## Many events -/

/-- The events between two places of a text. -/
inductive Scans : Scanner → List Event → Scanner → Prop
  | done (scanner : Scanner) : Scans scanner [] scanner
  | event {scanner after last : Scanner} {event : Event} {events : List Event}
      (h : scanner.next = .event event after) (more : Scans after events last) :
      Scans scanner (event :: events) last

theorem Scans.single {scanner after : Scanner} {event : Event}
    (h : scanner.next = .event event after) : Scans scanner [event] after :=
  .event h (.done after)

theorem Scans.append {scanner after last : Scanner} {events more : List Event}
    (h : Scans scanner events after) (h' : Scans after more last) :
    Scans scanner (events ++ more) last := by
  induction h with
  | done => exact h'
  | event hn _ ih => exact .event hn (ih h')

theorem Scans.length_le {scanner last : Scanner} {events : List Event}
    (h : Scans scanner events last) :
    last.rest.length + events.length ≤ scanner.rest.length := by
  induction h with
  | done => simp
  | event hn _ ih =>
    have hlt := (of_next hn).1
    simp only [List.length_cons]
    omega

/-- What was scanned on the way is the beginning of what is scanned up to the end. -/
theorem Scans.exists_more {scanner after : Scanner} {events all : List Event}
    {names : List (List Char)} (h : Scans scanner events after)
    (hall : Scans scanner all ⟨[], names⟩) :
    ∃ more, all = events ++ more ∧ Scans after more ⟨[], names⟩ := by
  induction h generalizing all with
  | done => exact ⟨all, rfl, hall⟩
  | event hn _ ih =>
    cases hall with
    | done => cases hn
    | event hn' hmore =>
      cases hn.symm.trans hn'
      obtain ⟨more, rfl, hlast⟩ := ih hmore
      exact ⟨more, rfl, hlast⟩

theorem eventsIn_of_scans {scanner last : Scanner} {events : List Event}
    (h : Scans scanner events last) (hl : last.rest = []) {rounds : Nat}
    (hr : events.length ≤ rounds) : eventsIn rounds scanner = (events, none) := by
  induction h generalizing rounds with
  | done scanner =>
    have hn : scanner.next = .ended := by simp only [next, hl]
    cases rounds with
    | zero => rfl
    | succ rounds => simp only [eventsIn, hn]
  | event hn _ ih =>
    cases rounds with
    | zero => cases hr
    | succ rounds =>
      have hm := ih hl (Nat.le_of_succ_le_succ hr)
      simp only [eventsIn, hn, hm]

/-- Events up to the end of a text are all its events. -/
theorem events_of_scans {s : List Char} {last : Scanner} {events : List Event}
    (h : Scans (start s) events last) (hl : last.rest = []) :
    Scanner.events s = (events, none) := by
  have hle := h.length_le
  exact eventsIn_of_scans h hl (Nat.le_of_add_left_le hle)

theorem exists_scans_of_eventsIn {rounds : Nat} {scanner : Scanner} {events : List Event}
    (h : eventsIn rounds scanner = (events, none)) (hr : scanner.rest.length ≤ rounds) :
    ∃ names, Scans scanner events ⟨[], names⟩ := by
  induction rounds generalizing scanner events with
  | zero =>
    obtain ⟨rest, names⟩ := scanner
    obtain rfl : rest = [] := List.length_eq_zero_iff.mp (Nat.le_zero.mp hr)
    cases h
    exact ⟨names, .done _⟩
  | succ rounds ih =>
    rw [eventsIn] at h
    cases hn : scanner.next with
    | ended =>
      rw [hn] at h
      cases h
      obtain ⟨rest, names⟩ := scanner
      obtain rfl : rest = [] := rest_eq_nil_of_ended hn
      exact ⟨names, .done _⟩
    | failed fault rest =>
      rw [hn] at h
      cases h
    | event event after =>
      have hlt := (of_next hn).1
      simp only [hn, Prod.mk.injEq] at h
      obtain ⟨rfl, hmore⟩ := h
      obtain ⟨names, hscan⟩ := ih (Prod.ext rfl hmore) (by omega)
      exact ⟨names, .event hn hscan⟩

/-- The events of a text without a fault in its markup go up to its end. -/
theorem events_eq_iff {s : List Char} {events : List Event} :
    Scanner.events s = (events, none) ↔ ∃ names, Scans (start s) events ⟨[], names⟩ :=
  ⟨fun h => exists_scans_of_eventsIn h le_rfl, fun ⟨_, h⟩ => events_of_scans h rfl⟩

end ApiClient.Xml.Scanner
