import Mathlib.Data.List.Chain
import ApiClient.Proofs.Endpoint.Template

/-!
# The grammar of path templates

* `IsTemplate`: literal characters and names in braces, one behind the other;
* `IsReduced`: pieces without empty texts and without two texts side by side;
* `Rounds`: reading a template brace by brace, with the four ways in which a round can go;
* `exists_rounds`, `rounds_iff`: the rounds come to an end, and to the result of `segments`;
* `exists_segments_iff`: the texts that have pieces are those of the grammar;
* `segments_eq_ok_iff`: the pieces of a template are the reduced ones that spell it;
* `Fault.Spoils`, `rounds_error_iff`: the texts that have no pieces, by what is wrong with them;
* `segments_inverts_print`: all of this for whole templates.
-/

namespace ApiClient.Template

open Segment

/-- Literal characters and placeholders, one behind the other. -/
inductive IsTemplate : List Char → Prop
  | nil : IsTemplate []
  | char {c : Char} {s : List Char} (h : c ≠ '{') (rest : IsTemplate s) : IsTemplate (c :: s)
  | placeholder {name s : List Char} (hne : name ≠ []) (hopen : '{' ∉ name) (hclose : '}' ∉ name)
      (rest : IsTemplate s) : IsTemplate ('{' :: (name ++ '}' :: s))

/-- Plain pieces without an empty text, of which no two that are side by side are texts. -/
def IsReduced (pieces : List Segment) : Prop :=
  (∀ piece ∈ pieces, piece.IsPlain ∧ piece ≠ .literal "") ∧
    pieces.IsChain fun piece next => piece.name? ≠ none ∨ next.name? ≠ none

/-- Reading round by round. A round takes the text up to the next opening brace and the name from
there to the next closing one, and what is behind it is left to the rounds that follow. -/
inductive Rounds : List Char → Except Fault (List Segment) → Prop
  | last {s : List Char} (h : '{' ∉ s) : Rounds s (.ok (literal s))
  | unterminated {before after : List Char} (hbefore : '{' ∉ before) (h : '}' ∉ after) :
      Rounds (before ++ '{' :: after) (.error .unterminated)
  | badName {before name after : List Char} (hbefore : '{' ∉ before) (hclose : '}' ∉ name)
      (h : name = [] ∨ '{' ∈ name) :
      Rounds (before ++ '{' :: (name ++ '}' :: after)) (.error (.badName (String.ofList name)))
  | next {before name after : List Char} {result : Except Fault (List Segment)}
      (hbefore : '{' ∉ before) (hclose : '}' ∉ name) (hne : name ≠ []) (hopen : '{' ∉ name)
      (rest : Rounds after result) :
      Rounds (before ++ '{' :: (name ++ '}' :: after))
        ((literal before ++ .placeholder (String.ofList name) :: ·) <$> result)

/-! ## The end of the rounds -/

/-- The rounds come to an end, since each leaves a shorter text. -/
theorem exists_rounds (s : List Char) : ∃ result, Rounds s result := by
  induction hlength : s.length using Nat.strong_induction_on generalizing s with
  | h length ih =>
    by_cases hopen : '{' ∈ s
    · obtain ⟨before, after, rfl, hbefore⟩ := List.eq_append_cons_of_mem hopen
      by_cases hclose : '}' ∈ after
      · obtain ⟨name, rest, rfl, hname⟩ := List.eq_append_cons_of_mem hclose
        by_cases hbad : name = [] ∨ '{' ∈ name
        · exact ⟨_, .badName hbefore hname hbad⟩
        · obtain ⟨result, hrest⟩ := ih rest.length (by simp at hlength; omega) rest rfl
          rw [not_or] at hbad
          exact ⟨_, .next hbefore hname hbad.1 hbad.2 hrest⟩
      · exact ⟨_, .unterminated hbefore hclose⟩
    · exact ⟨_, .last hopen⟩

theorem scan_brace {before : List Char} (h : '{' ∉ before) (rest : List Char) :
    scan none [] (before ++ '{' :: rest) = (literal before ++ ·) <$> scan (some []) [] rest := by
  rw [scan_text h, List.nil_append, scan]
  rfl

theorem scan_open {s : List Char} (h : '}' ∉ s) (name : List Char) :
    scan (some name) [] s = .error .unterminated := by
  induction s generalizing name with
  | nil => rfl
  | cons c s ih =>
    rw [List.mem_cons, not_or] at h
    rw [scan]
    simp only [Ne.symm h.1, if_false]
    exact ih h.2 _

theorem scan_of_rounds {s : List Char} {result : Except Fault (List Segment)}
    (h : Rounds s result) : scan none [] s = result := by
  induction h with
  | @last s h =>
    have hscan := scan_text h [] []
    rwa [List.append_nil] at hscan
  | unterminated hbefore h =>
    rw [scan_brace hbefore, scan_open h]
    rfl
  | badName hbefore hclose h =>
    rw [scan_brace hbefore, scan_inside hclose, scan]
    simp [h]
  | @next before name after result hbefore hclose hne hopen rest ih =>
    rw [scan_brace hbefore, scan_name hclose hne hopen, ih]
    cases result <;> rfl

theorem rounds_iff {s : List Char} {result : Except Fault (List Segment)} :
    Rounds s result ↔ scan none [] s = result := by
  constructor
  · exact scan_of_rounds
  · rintro rfl
    obtain ⟨result, h⟩ := exists_rounds s
    rwa [scan_of_rounds h]

/-! ## Acceptance -/

theorem isPlain_placeholder_iff {name : List Char} :
    (Segment.placeholder (String.ofList name)).IsPlain ↔ name ≠ [] ∧ '{' ∉ name ∧ '}' ∉ name := by
  rw [IsPlain, String.toList_ofList, ne_eq, ← String.toList_eq_nil_iff, String.toList_ofList]

theorem isTemplate_append {text : List Char} (h : '{' ∉ text) {s : List Char} (hs : IsTemplate s) :
    IsTemplate (text ++ s) := by
  induction text with
  | nil => exact hs
  | cons c text ih =>
    rw [List.mem_cons, not_or] at h
    exact .char (Ne.symm h.1) (ih h.2)

theorem isTemplate_of_isPlain {pieces : List Segment} (h : ∀ piece ∈ pieces, piece.IsPlain) :
    IsTemplate (pieces.flatMap Segment.print) := by
  induction pieces with
  | nil => exact .nil
  | cons piece pieces ih =>
    rw [List.forall_mem_cons] at h
    rw [List.flatMap_cons]
    cases piece with
    | literal content => exact isTemplate_append h.1 (ih h.2)
    | placeholder name =>
      obtain ⟨hne, hopen, hclose⟩ := h.1
      rw [Segment.print, List.cons_append, List.append_assoc]
      exact .placeholder (by rwa [ne_eq, String.toList_eq_nil_iff]) hopen hclose (ih h.2)

theorem exists_isPlain_of_isTemplate {s : List Char} (h : IsTemplate s) :
    ∃ pieces : List Segment, (∀ piece ∈ pieces, piece.IsPlain) ∧
      pieces.flatMap Segment.print = s := by
  induction h with
  | nil => exact ⟨[], List.forall_mem_nil _, rfl⟩
  | @char c s h _ ih =>
    obtain ⟨pieces, hplain, rfl⟩ := ih
    refine ⟨.literal (String.singleton c) :: pieces, List.forall_mem_cons.mpr ⟨?_, hplain⟩, ?_⟩
    · rw [IsPlain, String.toList_singleton, List.mem_singleton]
      exact Ne.symm h
    · rw [List.flatMap_cons, Segment.print, String.toList_singleton, List.singleton_append]
  | @placeholder name s hne hopen hclose _ ih =>
    obtain ⟨pieces, hplain, rfl⟩ := ih
    have hname := isPlain_placeholder_iff.mpr ⟨hne, hopen, hclose⟩
    refine ⟨.placeholder (String.ofList name) :: pieces,
      List.forall_mem_cons.mpr ⟨hname, hplain⟩, ?_⟩
    rw [List.flatMap_cons, Segment.print, String.toList_ofList, List.cons_append,
      List.append_assoc, List.singleton_append]

/-- The texts that have pieces are those of the grammar. -/
theorem exists_segments_iff {template : String} :
    (∃ pieces, segments template = .ok pieces) ↔ IsTemplate template.toList := by
  constructor
  · rintro ⟨pieces, h⟩
    rw [← print_of_segments h]
    exact isTemplate_of_isPlain (isPlain_of_segments h)
  · intro h
    obtain ⟨pieces, hplain, hprint⟩ := exists_isPlain_of_isTemplate h
    obtain ⟨found, hfound, -⟩ := exists_segments_print hplain
    rw [hprint, String.ofList_toList] at hfound
    exact ⟨found, hfound⟩

/-! ## Reduced pieces -/

theorem literal_toList {content : String} (h : content ≠ "") :
    literal content.toList = [.literal content] := by
  have hne : content.toList.isEmpty = false := by
    rwa [List.isEmpty_eq_false_iff, ne_eq, String.toList_eq_nil_iff]
  rw [literal, hne, String.ofList_toList]
  rfl

theorem isReduced_literal {content : List Char} (h : '{' ∉ content) :
    IsReduced (literal content) := by
  refine ⟨fun piece hp => ⟨isPlain_literal h piece hp, ?_⟩, ?_⟩
  · rintro rfl
    unfold literal at hp
    split at hp
    · cases hp
    · next hne => exact hne (by simpa [String.ext_iff] using hp)
  · unfold literal
    split
    · exact .nil
    · exact .singleton _

theorem isReduced_placeholder_iff {name : String} {pieces : List Segment} :
    IsReduced (.placeholder name :: pieces) ↔
      (Segment.placeholder name).IsPlain ∧ IsReduced pieces := by
  have hname : ∀ next : Segment,
      (Segment.placeholder name).name? ≠ none ∨ next.name? ≠ none := fun _ => .inl nofun
  rw [IsReduced, IsReduced, List.forall_mem_cons, List.isChain_cons]
  simp [hname, and_assoc]

theorem isReduced_literal_append {content : List Char} (h : '{' ∉ content) {name : String}
    {pieces : List Segment} (hp : IsReduced (.placeholder name :: pieces)) :
    IsReduced (literal content ++ .placeholder name :: pieces) := by
  refine ⟨List.forall_mem_append.mpr ⟨(isReduced_literal h).1, hp.1⟩, ?_⟩
  refine List.isChain_append.mpr ⟨(isReduced_literal h).2, hp.2, fun _ _ next hnext => ?_⟩
  obtain rfl := Option.some.inj hnext
  exact .inr nofun

theorem isReduced_of_rounds {s : List Char} {result : Except Fault (List Segment)}
    (h : Rounds s result) {pieces : List Segment} (hr : result = .ok pieces) :
    IsReduced pieces := by
  induction h generalizing pieces with
  | last h => exact Except.ok.inj hr ▸ isReduced_literal h
  | unterminated => cases hr
  | badName => cases hr
  | next hbefore hclose hne hopen _ ih =>
    obtain ⟨more, hmore, rfl⟩ := map_eq_ok_iff.mp hr
    have hname := isPlain_placeholder_iff.mpr ⟨hne, hopen, hclose⟩
    exact isReduced_literal_append hbefore (isReduced_placeholder_iff.mpr ⟨hname, ih hmore⟩)

theorem rounds_placeholder {before : List Char} (hbefore : '{' ∉ before) {name : String}
    (h : (Segment.placeholder name).IsPlain) {s : List Char} {pieces : List Segment}
    (hs : Rounds s (.ok pieces)) :
    Rounds (before ++ ((Segment.placeholder name).print ++ s))
      (.ok (literal before ++ .placeholder name :: pieces)) := by
  obtain ⟨hne, hopen, hclose⟩ := h
  have hnext := Rounds.next hbefore hclose (by rwa [ne_eq, String.toList_eq_nil_iff]) hopen hs
  rw [String.ofList_toList] at hnext
  rwa [Segment.print, List.cons_append, List.append_assoc, List.singleton_append]

/-- Reading what reduced pieces spell: a round for every placeholder, with the text before it. -/
theorem rounds_print : {pieces : List Segment} → IsReduced pieces →
    Rounds (pieces.flatMap Segment.print) (.ok pieces)
  | [], _ => .last List.not_mem_nil
  | .placeholder name :: pieces, h => by
    rw [isReduced_placeholder_iff] at h
    rw [List.flatMap_cons]
    exact rounds_placeholder List.not_mem_nil h.1 (rounds_print h.2)
  | [.literal content], h => by
    obtain ⟨hplain, hne⟩ := h.1 _ List.mem_cons_self
    rw [List.flatMap_cons, List.flatMap_nil, List.append_nil, ← literal_toList (by simpa using hne)]
    exact .last hplain
  | .literal content :: .placeholder name :: pieces, h => by
    obtain ⟨hplain, hne⟩ := h.1 _ List.mem_cons_self
    have hbehind : IsReduced (.placeholder name :: pieces) :=
      ⟨fun piece hp => h.1 piece (List.mem_cons_of_mem _ hp), (List.isChain_cons_cons.mp h.2).2⟩
    rw [isReduced_placeholder_iff] at hbehind
    rw [List.flatMap_cons, List.flatMap_cons]
    have hrounds := rounds_placeholder hplain hbehind.1 (rounds_print hbehind.2)
    rwa [literal_toList (by simpa using hne)] at hrounds
  | .literal _ :: .literal _ :: _, h => by
    rcases (List.isChain_cons_cons.mp h.2).1 with hname | hname <;> exact absurd rfl hname

/-- The pieces of a template are the reduced ones that spell it. -/
theorem segments_eq_ok_iff {template : String} {pieces : List Segment} :
    segments template = .ok pieces ↔ IsReduced pieces ∧ print pieces = template := by
  constructor
  · intro h
    refine ⟨isReduced_of_rounds (rounds_iff.mpr h) rfl, ?_⟩
    rw [print, print_of_segments h, String.ofList_toList]
  · rintro ⟨h, rfl⟩
    rw [segments, print, String.toList_ofList]
    exact scan_of_rounds (rounds_print h)

/-! ## Failures -/

/-- What stands behind an opening brace when it has this fault. -/
def Fault.Spoils : Fault → List Char → Prop
  | .unterminated, rest => '}' ∉ rest
  | .badName bad, rest =>
    ∃ name after, rest = name ++ '}' :: after ∧ '}' ∉ name ∧ (name = [] ∨ '{' ∈ name) ∧
      bad = String.ofList name

theorem rounds_of_spoils {before rest : List Char} (h : '{' ∉ before) {fault : Fault}
    (hrest : fault.Spoils rest) : Rounds (before ++ '{' :: rest) (.error fault) := by
  cases fault with
  | unterminated => exact .unterminated h hrest
  | badName bad =>
    obtain ⟨name, after, rfl, hclose, hbad, rfl⟩ := hrest
    exact .badName h hclose hbad

/-- A failing round begins with text, which may as well be longer. -/
theorem rounds_cons {c : Char} (h : c ≠ '{') {s : List Char} {fault : Fault}
    (hs : Rounds s (.error fault)) : Rounds (c :: s) (.error fault) := by
  generalize hr : Except.error fault = result at hs
  have hcons : ∀ {before : List Char}, '{' ∉ before → '{' ∉ c :: before := fun hbefore => by
    rw [List.mem_cons, not_or]
    exact ⟨Ne.symm h, hbefore⟩
  cases hs with
  | last => cases hr
  | unterminated hbefore hafter =>
    cases hr
    exact .unterminated (hcons hbefore) hafter
  | badName hbefore hclose hbad =>
    cases hr
    exact .badName (hcons hbefore) hclose hbad
  | @next before name after result hbefore hclose hne hopen rest =>
    cases result with
    | ok pieces => cases hr
    | error fault' =>
      cases hr
      exact .next (hcons hbefore) hclose hne hopen rest

/-- Reading fails at a brace with a template before it and nothing usable behind it. -/
theorem rounds_error_iff {s : List Char} {fault : Fault} :
    Rounds s (.error fault) ↔
      ∃ before rest, s = before ++ '{' :: rest ∧ IsTemplate before ∧ fault.Spoils rest := by
  constructor
  · intro h
    generalize hr : Except.error fault = result at h
    induction h with
    | last => cases hr
    | @unterminated before after hbefore hafter =>
      cases hr
      have htext := isTemplate_append hbefore .nil
      rw [List.append_nil] at htext
      exact ⟨before, after, rfl, htext, hafter⟩
    | @badName before name after hbefore hclose hbad =>
      cases hr
      have htext := isTemplate_append hbefore .nil
      rw [List.append_nil] at htext
      exact ⟨before, _, rfl, htext, name, after, rfl, hclose, hbad, rfl⟩
    | @next before name after result hbefore hclose hne hopen _ ih =>
      cases result with
      | ok pieces => cases hr
      | error fault' =>
        cases hr
        obtain ⟨between, rest, rfl, htemplate, hrest⟩ := ih rfl
        refine ⟨before ++ '{' :: (name ++ '}' :: between), rest, by simp, ?_, hrest⟩
        exact isTemplate_append hbefore (.placeholder hne hopen hclose htemplate)
  · rintro ⟨before, rest, rfl, htemplate, hrest⟩
    induction htemplate with
    | nil => exact rounds_of_spoils List.not_mem_nil hrest
    | char h _ ih => exact rounds_cons h ih
    | @placeholder name s hne hopen hclose _ ih =>
      rw [List.cons_append, List.append_assoc, List.cons_append]
      exact .next List.not_mem_nil hclose hne hopen ih

/-! ## Whole templates -/

/-- The rounds of reading come to one end. The pieces they lead to are the only ones without empty
texts and neighbouring texts that spell the template, the texts without pieces are those outside of
the grammar, and a failure has its cause behind a brace: no brace closes it, or no name is there. -/
theorem segments_inverts_print (template : String) :
    (∃! result, Rounds template.toList result) ∧
      Rounds template.toList (segments template) ∧
      ((∃ pieces, segments template = .ok pieces) ↔ IsTemplate template.toList) ∧
      (∀ pieces, segments template = .ok pieces ↔ IsReduced pieces ∧ print pieces = template) ∧
      ∀ fault, segments template = .error fault ↔
        ∃ before rest, template.toList = before ++ '{' :: rest ∧ IsTemplate before ∧
          fault.Spoils rest := by
  refine ⟨⟨segments template, rounds_iff.mpr rfl, fun result h => ?_⟩, rounds_iff.mpr rfl,
    exists_segments_iff, fun pieces => segments_eq_ok_iff, fun fault => ?_⟩
  · exact (rounds_iff.mp h).symm
  · rw [← rounds_error_iff, rounds_iff, segments]

end ApiClient.Template
