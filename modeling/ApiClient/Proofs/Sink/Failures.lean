import ApiClient.Proofs.Outcome
import ApiClient.Proofs.Sink.History
import ApiClient.Sink.Indented

/-!
# Failing steps of indenting sinks

Steps are taken one after the other, and one that fails does not keep the next from being taken.

* `Guarded`: a sink that writes as soon as a file is open, whose failing writes cannot be seen, and
  whose failing beginnings of files do nothing but `rewind`;
* `guarded_fileBuffer`, `Guarded.indented`: a file buffer is one, and so is an indenting sink over
  one;
* `Indented.taken`, `Indented.behind`: what is seen of each step, and the state behind all of them;
* `Guarded.taken_filter`: steps that fail can be left out, unless they rewind something;
* `failed_steps_rewind`: all of this for one and for two indenting sinks over a file buffer.
-/

namespace ApiClient

/-! ## Guarded sinks -/

/-- A sink that writes if a file is open and is refused otherwise. No step tells states apart that
are `Alike`. A write that is refused leads to such a state, and a file that cannot be begun does
nothing but `rewind`. -/
structure Guarded {ε σ : Type} (below : Sink ε σ) (IsOpen : σ → Prop) (Alike : σ → σ → Prop)
    (rewind : σ → σ) (refusal : ε) : Prop where
  equivalence : Equivalence Alike
  isOpen_iff {s t : σ} (h : Alike s t) : IsOpen s ↔ IsOpen t
  congr {s t : σ} (h : Alike s t) (step : Sink.Step) :
    Outcome.Alike Alike (below.perform step s) (below.perform step t)
  writes {s : σ} (h : IsOpen s) {step : Sink.Step} (hstep : step.begun? = none) :
    ∃ s', below.perform step s = { state := s' } ∧ IsOpen s'
  refuses {s : σ} (h : ¬ IsOpen s) {step : Sink.Step} (hstep : step.begun? = none) :
    ∃ s', below.perform step s = { state := s', failure? := some refusal } ∧ Alike s' s
  rewinds {s : σ} {name : String}
    (h : (below.perform (.beginFile name) s).failure? ≠ none) :
    (below.perform (.beginFile name) s).state = rewind s

/-- A file buffer stays as it is when a step fails. -/
theorem guarded_fileBuffer :
    Guarded FileBuffer.sink (fun b => b.current? ≠ none) Eq id .noFile where
  equivalence := eq_equivalence
  isOpen_iff := by
    rintro s _ rfl
    rfl
  congr := by
    rintro s _ rfl step
    exact ⟨rfl, rfl⟩
  writes h step hstep := by
    obtain ⟨⟨name, text⟩, hcurrent⟩ := Option.ne_none_iff_exists'.mp h
    rw [FileBuffer.perform_of_begun?_eq_none hstep, FileBuffer.write_of_current hcurrent]
    exact ⟨_, rfl, Option.some_ne_none _⟩
  refuses h step hstep := by
    rw [FileBuffer.perform_of_begun?_eq_none hstep, FileBuffer.write_of_none (not_not.mp h)]
    exact ⟨_, rfl, rfl⟩
  rewinds h := FileBuffer.state_of_failure h

namespace Indented

variable {ε σ : Type}

/-! ## Indenting over a guarded sink -/

/-- What goes below for a write: the indentation of the line if it lacks it, and the data. -/
def writeBelow (below : Sink ε σ) (indent data : String) (depth : Nat) (pending : Bool) (s : σ) :
    Outcome ε σ :=
  (if pending then writeTimes below indent depth s else { state := s }).andThen (below.write data)

/-- Whether it succeeds or not, a write leaves a line that has begun. -/
theorem write_eq (below : Sink ε σ) (indent data : String) (i : Indented σ) :
    write below indent data i = (writeBelow below indent data i.depth i.pending i.inner).map
      (Indented.mk i.depth false) := by
  obtain ⟨depth, _ | _, s⟩ := i
  · rfl
  · rw [write, writePending, writeBelow, if_pos rfl, if_pos rfl]
    obtain ⟨t, _ | e⟩ := writeTimes below indent depth s <;> rfl

/-- States of the same depth over states that look the same. Whether the line lacks its indentation
is not seen as long as nothing can be written. -/
structure AlikeOver (IsOpen : σ → Prop) (Alike : σ → σ → Prop) (i j : Indented σ) : Prop where
  depth : i.depth = j.depth
  inner : Alike i.inner j.inner
  pending : IsOpen i.inner → i.pending = j.pending

/-- The state at depth zero and at the beginning of a line, all the way down. -/
def rewound (rewind : σ → σ) (i : Indented σ) : Indented σ :=
  { depth := 0, pending := true, inner := rewind i.inner }

end Indented

namespace Guarded

open Indented

variable {ε σ : Type} {below : Sink ε σ} {IsOpen : σ → Prop} {Alike : σ → σ → Prop}
  {rewind : σ → σ} {refusal : ε} (h : Guarded below IsOpen Alike rewind refusal)
include h

theorem isOpen_of_alike {s t : σ} (hst : Alike s t) (hs : IsOpen s) : IsOpen t :=
  (h.isOpen_iff hst).mp hs

theorem alikeOver_equivalence : Equivalence (AlikeOver IsOpen Alike) where
  refl _ := ⟨rfl, h.equivalence.refl _, fun _ => rfl⟩
  symm hij := ⟨hij.depth.symm, h.equivalence.symm hij.inner, fun hopen =>
    (hij.pending ((h.isOpen_iff hij.inner).mpr hopen)).symm⟩
  trans hij hjk := ⟨hij.depth.trans hjk.depth, h.equivalence.trans hij.inner hjk.inner,
    fun hopen => (hij.pending hopen).trans (hjk.pending (h.isOpen_of_alike hij.inner hopen))⟩

theorem writeTimes_alike (data : String) (n : Nat) {s t : σ} (hst : Alike s t) :
    Outcome.Alike Alike (writeTimes below data n s) (writeTimes below data n t) := by
  induction n generalizing s t with
  | zero => exact ⟨rfl, hst⟩
  | succ n ih => exact (h.congr hst (.write data)).andThen fun s t hst => ih hst

theorem writeTimes_open (data : String) (n : Nat) {s : σ} (hs : IsOpen s) :
    ∃ s', writeTimes below data n s = { state := s' } ∧ IsOpen s' := by
  induction n generalizing s with
  | zero => exact ⟨s, rfl, hs⟩
  | succ n ih =>
    obtain ⟨s', hwrite, hs'⟩ := h.writes hs (rfl : (Sink.Step.write data).begun? = none)
    rw [writeTimes, show below.write data s = _ from hwrite]
    exact ih hs'

theorem writeBelow_alike (indent data : String) (depth : Nat) (pending : Bool) {s t : σ}
    (hst : Alike s t) :
    Outcome.Alike Alike (writeBelow below indent data depth pending s)
      (writeBelow below indent data depth pending t) := by
  refine Outcome.Alike.andThen ?_ fun s t hst => h.congr hst (.write data)
  cases pending with
  | true => exact h.writeTimes_alike indent depth hst
  | false => exact ⟨rfl, hst⟩

theorem writeBelow_open (indent data : String) (depth : Nat) (pending : Bool) {s : σ}
    (hs : IsOpen s) :
    ∃ s', writeBelow below indent data depth pending s = { state := s' } ∧ IsOpen s' := by
  have hfirst : ∃ s', (if pending then writeTimes below indent depth s else { state := s }) =
      { state := s' } ∧ IsOpen s' := by
    cases pending with
    | true => exact h.writeTimes_open indent depth hs
    | false => exact ⟨s, rfl, hs⟩
  obtain ⟨s', hwrite, hs'⟩ := hfirst
  rw [writeBelow, hwrite]
  exact h.writes hs' (rfl : (Sink.Step.write data).begun? = none)

/-- The first write that goes below is refused, be it indentation or data. -/
theorem writeBelow_closed (indent data : String) (depth : Nat) (pending : Bool) {s : σ}
    (hs : ¬ IsOpen s) :
    ∃ s', writeBelow below indent data depth pending s =
      { state := s', failure? := some refusal } ∧ Alike s' s := by
  have hrefuses : ∀ data, ∃ s', below.write data s = { state := s', failure? := some refusal } ∧
      Alike s' s := fun data => h.refuses hs (rfl : (Sink.Step.write data).begun? = none)
  cases pending with
  | false => exact hrefuses data
  | true =>
    cases depth with
    | zero => exact hrefuses data
    | succ depth =>
      obtain ⟨s', hwrite, hs'⟩ := hrefuses indent
      rw [writeBelow, if_pos rfl, writeTimes, hwrite]
      exact ⟨s', rfl, hs'⟩

theorem write_alike (indent data : String) {i j : Indented σ}
    (hij : AlikeOver IsOpen Alike i j) :
    Outcome.Alike (AlikeOver IsOpen Alike) (write below indent data i)
      (write below indent data j) := by
  have hbelow : Outcome.Alike Alike (writeBelow below indent data i.depth i.pending i.inner)
      (writeBelow below indent data j.depth j.pending j.inner) := by
    by_cases hopen : IsOpen i.inner
    · rw [hij.depth, hij.pending hopen]
      exact h.writeBelow_alike indent data _ _ hij.inner
    · -- both writes are refused, whatever the lines lack
      obtain ⟨s, hs, hsi⟩ := h.writeBelow_closed indent data i.depth i.pending hopen
      obtain ⟨t, ht, htj⟩ := h.writeBelow_closed indent data j.depth j.pending
        (mt (h.isOpen_iff hij.inner).mpr hopen)
      rw [hs, ht]
      exact ⟨rfl, h.equivalence.trans hsi
        (h.equivalence.trans hij.inner (h.equivalence.symm htj))⟩
  rw [write_eq, write_eq]
  exact hbelow.map fun s t hst => ⟨hij.depth, hst, fun _ => rfl⟩

theorem newline_alike {i j : Indented σ} (hij : AlikeOver IsOpen Alike i j) :
    Outcome.Alike (AlikeOver IsOpen Alike) (newline below i) (newline below j) := by
  have hbelow := h.congr hij.inner .newline
  refine ⟨hbelow.failure?, hij.depth, hbelow.state, fun hopen => ?_⟩
  change (i.pending || (below.newline i.inner).failure?.isNone) =
    (j.pending || (below.newline j.inner).failure?.isNone)
  by_cases hi : IsOpen i.inner
  · rw [hij.pending hi, show (below.newline i.inner).failure? = _ from hbelow.failure?]
    rfl
  · -- a line end that is refused opens no file
    obtain ⟨s', hs', halike⟩ := h.refuses hi (rfl : Sink.Step.newline.begun? = none)
    have hstate : (below.newline i.inner).state = s' :=
      congrArg Outcome.state (show below.newline i.inner = _ from hs')
    refine absurd (h.isOpen_of_alike halike ?_) hi
    rw [← hstate]
    exact hopen

/-- An indenting sink over a guarded sink is guarded, too. -/
theorem indented (indent : String) :
    Guarded (sink below indent) (fun i => IsOpen i.inner) (AlikeOver IsOpen Alike)
      (rewound rewind) refusal where
  equivalence := h.alikeOver_equivalence
  isOpen_iff hij := h.isOpen_iff hij.inner
  congr hij step := by
    cases step with
    | beginFile name =>
      exact (h.congr hij.inner (.beginFile name)).map fun s t hst => ⟨rfl, hst, fun _ => rfl⟩
    | write data => exact h.write_alike indent data hij
    | writeChar c => exact h.write_alike indent (String.singleton c) hij
    | newline => exact h.newline_alike hij
  writes {i} hopen step hstep := by
    have hwrite : ∀ data, ∃ i', write below indent data i = { state := i' } ∧
        IsOpen i'.inner := by
      intro data
      obtain ⟨s', hs', hs'open⟩ := h.writeBelow_open indent data i.depth i.pending hopen
      rw [write_eq, hs']
      exact ⟨_, rfl, hs'open⟩
    cases step with
    | beginFile name => cases hstep
    | write data => exact hwrite data
    | writeChar c => exact hwrite (String.singleton c)
    | newline =>
      obtain ⟨s', hs', hs'open⟩ := h.writes hopen (rfl : Sink.Step.newline.begun? = none)
      change ∃ i', newline below i = { state := i' } ∧ IsOpen i'.inner
      rw [newline, show below.newline i.inner = _ from hs']
      exact ⟨_, rfl, hs'open⟩
  refuses {i} hclosed step hstep := by
    have hwrite : ∀ data, ∃ i', write below indent data i =
        { state := i', failure? := some refusal } ∧ AlikeOver IsOpen Alike i' i := by
      intro data
      obtain ⟨s', hs', halike⟩ := h.writeBelow_closed indent data i.depth i.pending hclosed
      rw [write_eq, hs']
      exact ⟨_, rfl, rfl, halike, fun hopen => absurd (h.isOpen_of_alike halike hopen) hclosed⟩
    cases step with
    | beginFile name => cases hstep
    | write data => exact hwrite data
    | writeChar c => exact hwrite (String.singleton c)
    | newline =>
      obtain ⟨s', hs', halike⟩ := h.refuses hclosed (rfl : Sink.Step.newline.begun? = none)
      change ∃ i', newline below i = { state := i', failure? := some refusal } ∧ _
      rw [newline, show below.newline i.inner = _ from hs']
      exact ⟨_, rfl, rfl, halike, fun hopen => absurd (h.isOpen_of_alike halike hopen) hclosed⟩
  rewinds {i name} hfails := by
    have hbelow : (below.beginFile name i.inner).state = rewind i.inner := h.rewinds hfails
    change rewound (fun _ => (below.beginFile name i.inner).state) i = rewound rewind i
    rw [rewound, rewound, hbelow]

end Guarded

/-! ## Runs -/

namespace Indented

variable {ε σ : Type}

/-- What is seen of a step that has been taken: what went wrong, if something did, and the depth
behind it. -/
structure Taken (ε : Type) where
  step : Step
  failure? : Option ε
  depth : Nat
  deriving DecidableEq

/-- What is seen of a step that is taken. -/
def take (below : Sink ε σ) (indent : String) (step : Step) (i : Indented σ) : Taken ε where
  step
  failure? := (perform below indent step i).failure?
  depth := (perform below indent step i).state.depth

/-- What is seen of steps that are taken one after the other, whether they succeed or not. -/
def taken (below : Sink ε σ) (indent : String) : List Step → Indented σ → List (Taken ε)
  | [], _ => []
  | step :: steps, i =>
    take below indent step i :: taken below indent steps (perform below indent step i).state

/-- The state behind steps, whether they succeed or not. -/
def behind (below : Sink ε σ) (indent : String) (steps : List Step) (i : Indented σ) :
    Indented σ :=
  steps.foldl (fun i step => (perform below indent step i).state) i

/-- Whether a step is left out where failing steps of a kind are. -/
def Taken.isLeftOut (kind : Step → Bool) (t : Taken ε) : Bool := t.failure?.isSome && kind t.step

/-- The steps that are left, with what has been seen of them, when the failing ones of a kind are
left out. -/
def kept (below : Sink ε σ) (indent : String) (kind : Step → Bool) (steps : List Step)
    (i : Indented σ) : List (Taken ε) :=
  (taken below indent steps i).filter (!·.isLeftOut kind)

/-- Failing steps of a kind can be left out: the others have the same results and leave the same
depths, and what is seen of the sink below is the same in the end. -/
structure CanLeaveOut {τ : Type} (below : Sink ε σ) (indent : String) (look : σ → τ)
    (kind : Step → Bool) (steps : List Step) (i : Indented σ) : Prop where
  taken : taken below indent ((kept below indent kind steps i).map Taken.step) i =
    kept below indent kind steps i
  look : look (behind below indent ((kept below indent kind steps i).map Taken.step) i).inner =
    look (behind below indent steps i).inner

/-- Whether a step does not begin a file. -/
def Step.staysInFile : Step → Bool
  | .step (.beginFile _) => false
  | _ => true

end Indented

namespace Guarded

open Indented

variable {ε σ : Type} {below : Sink ε σ} {IsOpen : σ → Prop} {Alike : σ → σ → Prop}
  {rewind : σ → σ} {refusal : ε} (h : Guarded below IsOpen Alike rewind refusal)
include h

theorem perform_alike (indent : String) {i j : Indented σ} (hij : AlikeOver IsOpen Alike i j)
    (step : Indented.Step) :
    Outcome.Alike (AlikeOver IsOpen Alike) (perform below indent step i)
      (perform below indent step j) := by
  cases step with
  | indent amount =>
    exact ⟨rfl, congrArg (moved · amount) hij.depth, hij.inner, hij.pending⟩
  | step step => exact (h.indented indent).congr hij step

/-- A step that fails cannot be seen behind it, unless it rewinds something. -/
theorem alike_of_failure {indent : String} {step : Indented.Step} {i : Indented σ}
    (hfails : (perform below indent step i).failure? ≠ none)
    (hrewound : ∀ name, step = .step (.beginFile name) → rewound rewind i = i) :
    AlikeOver IsOpen Alike (perform below indent step i).state i := by
  cases step with
  | indent amount => exact absurd rfl hfails
  | step step =>
    cases hbegun : step.begun? with
    | some name =>
      obtain rfl := Sink.Step.begun?_eq_some_iff.mp hbegun
      rw [show (perform below indent (.step (.beginFile name)) i).state = _ from
        (h.indented indent).rewinds hfails, hrewound name rfl]
      exact h.alikeOver_equivalence.refl i
    | none =>
      by_cases hopen : IsOpen i.inner
      · obtain ⟨i', hi', -⟩ := (h.indented indent).writes hopen hbegun
        exact absurd (congrArg Outcome.failure? hi') hfails
      · obtain ⟨i', hi', halike⟩ := (h.indented indent).refuses hopen hbegun
        rw [show perform below indent (.step step) i = _ from hi']
        exact halike

/-- The steps that are left see and do the same, from any state that looks the same. -/
theorem taken_kept (indent : String) (kind : Indented.Step → Bool) {steps : List Indented.Step}
    {i j : Indented σ} (hij : AlikeOver IsOpen Alike i j)
    (hkind : ∀ first name last, steps = first ++ .step (.beginFile name) :: last →
      kind (.step (.beginFile name)) = true →
      (perform below indent (.step (.beginFile name)) (behind below indent first i)).failure? ≠
        none → rewound rewind (behind below indent first i) = behind below indent first i) :
    taken below indent ((kept below indent kind steps i).map Taken.step) j =
        kept below indent kind steps i ∧
      AlikeOver IsOpen Alike
        (behind below indent ((kept below indent kind steps i).map Taken.step) j)
        (behind below indent steps i) := by
  induction steps generalizing i j with
  | nil => exact ⟨rfl, h.alikeOver_equivalence.symm hij⟩
  | cons step steps ih =>
    have htail := fun first name last (hsteps : steps = _) =>
      hkind (step :: first) name last (congrArg (step :: ·) hsteps)
    cases hleft : (take below indent step i).isLeftOut kind with
    | true =>
      obtain ⟨hfails, hstep⟩ := Bool.and_eq_true_iff.mp hleft
      replace hfails := Option.isSome_iff_ne_none.mp hfails
      have halike := h.alike_of_failure hfails fun name hname => by
        subst hname
        exact hkind [] name steps rfl hstep hfails
      have hkept : kept below indent kind (step :: steps) i =
          kept below indent kind steps (perform below indent step i).state :=
        List.filter_cons_of_neg (by simp [hleft])
      rw [hkept]
      exact ih (h.alikeOver_equivalence.trans halike hij) htail
    | false =>
      have hstep := h.perform_alike indent hij step
      have hkept : kept below indent kind (step :: steps) i =
          take below indent step i ::
            kept below indent kind steps (perform below indent step i).state :=
        List.filter_cons_of_pos (by simp [hleft])
      obtain ⟨htaken, hbehind⟩ := ih hstep.state htail
      have htake : take below indent step j = take below indent step i := by
        rw [take, take, hstep.failure?, hstep.state.depth]
      rw [hkept, List.map_cons]
      exact ⟨congrArg₂ List.cons htake htaken, hbehind⟩

/-- Failing steps can be left out if none of them rewinds anything. -/
theorem canLeaveOut {τ : Type} {look : σ → τ} (hlook : ∀ s t, Alike s t → look s = look t)
    (indent : String) (kind : Indented.Step → Bool) {steps : List Indented.Step} {i : Indented σ}
    (hkind : ∀ first name last, steps = first ++ .step (.beginFile name) :: last →
      kind (.step (.beginFile name)) = true →
      (perform below indent (.step (.beginFile name)) (behind below indent first i)).failure? ≠
        none → rewound rewind (behind below indent first i) = behind below indent first i) :
    CanLeaveOut below indent look kind steps i := by
  obtain ⟨htaken, hbehind⟩ :=
    h.taken_kept indent kind (h.alikeOver_equivalence.refl i) hkind
  exact ⟨htaken, hlook _ _ hbehind.inner⟩

end Guarded

/-! ## One indenting sink over a file buffer, and two -/

namespace Indented

variable {ε σ τ : Type}

/-- Depth zero, at the beginning of a line. -/
def AtStart (i : Indented σ) : Prop := i.depth = 0 ∧ i.pending = true

instance (i : Indented σ) : Decidable i.AtStart := inferInstanceAs (Decidable (_ ∧ _))

theorem rewound_eq_self_iff {rewind : σ → σ} {i : Indented σ} :
    rewound rewind i = i ↔ i.AtStart ∧ rewind i.inner = i.inner := by
  obtain ⟨depth, pending, s⟩ := i
  simp only [rewound, AtStart, mk.injEq, eq_comm (a := 0), eq_comm (a := true), and_assoc]

/-- What steps that fail do in a run of steps from `i` on. Writes and ends of lines that fail can be
left out. So can files that cannot be begun if they come where everything is `atStart`. At a depth
other than zero they are seen. -/
structure FailsCleanly (below : Sink ε σ) (indent : String) (look : σ → τ)
    (atStart : Indented σ → Prop) (i : Indented σ) (steps : List Step) : Prop where
  writes : CanLeaveOut below indent look Step.staysInFile steps i
  all : (∀ first name last, steps = first ++ .step (.beginFile name) :: last →
      (perform below indent (.step (.beginFile name)) (behind below indent first i)).failure? ≠
        none → atStart (behind below indent first i)) →
    CanLeaveOut below indent look (fun _ => true) steps i
  seen : ∀ name, (perform below indent (.step (.beginFile name)) i).failure? ≠ none →
    i.depth ≠ 0 →
    ¬ CanLeaveOut below indent look (fun _ => true) [.step (.beginFile name), .indent 0] i

theorem moved_zero_ne {depth : Nat} (h : depth ≠ 0) : moved depth 0 ≠ 0 := by
  simp only [moved, maxDepth]
  omega

end Indented

theorem Guarded.failsCleanly {ε σ τ : Type} {below : Sink ε σ} {IsOpen : σ → Prop}
    {Alike : σ → σ → Prop} {rewind : σ → σ} {refusal : ε}
    (h : Guarded below IsOpen Alike rewind refusal) {look : σ → τ}
    (hlook : ∀ s t, Alike s t → look s = look t) {atStart : Indented σ → Prop}
    (hstart : ∀ i, atStart i → Indented.rewound rewind i = i) (indent : String)
    (i : Indented σ) (steps : List Indented.Step) :
    Indented.FailsCleanly below indent look atStart i steps where
  writes := h.canLeaveOut hlook indent _ fun _ _ _ _ hkind => nomatch hkind
  all hall := h.canLeaveOut hlook indent _ fun first name last hsteps _ hfails =>
    hstart _ (hall first name last hsteps hfails)
  seen name hfails hdepth hleft := by
    have hisSome : (Indented.take below indent (.step (.beginFile name)) i).isLeftOut
        (fun _ => true) = true := by
      rw [Indented.Taken.isLeftOut, Bool.and_true]
      exact Option.isSome_iff_ne_none.mpr hfails
    -- only the change of the depth by zero is left, and it is seen at the depth that there was
    have hkept : Indented.kept below indent (fun _ => true)
        [.step (.beginFile name), .indent 0] i =
          [{ step := .indent 0, failure? := none, depth := 0 }] := by
      rw [Indented.kept, Indented.taken, List.filter_cons_of_neg (by simp [hisSome])]
      rfl
    have htaken := hleft.taken
    rw [hkept] at htaken
    exact Indented.moved_zero_ne hdepth (congrArg Indented.Taken.depth (List.cons.inj htaken).1)

namespace Indented

/-- Failing writes leave no trace, over a file buffer and over another indenting sink. A file that
cannot be begun leaves the files as they are, but takes all indentation back. -/
theorem failed_steps_rewind (outer inner : String) :
    (∀ (i : Indented FileBuffer) (steps : List Step),
      FailsCleanly FileBuffer.sink outer FileBuffer.files AtStart i steps) ∧
    (∀ (i : Indented (Indented FileBuffer)) (steps : List Step),
      FailsCleanly (sink FileBuffer.sink inner) outer (fun i => i.inner.files)
        (fun i => i.AtStart ∧ i.inner.AtStart) i steps) ∧
    (∀ (i : Indented FileBuffer) (name : String),
      (perform FileBuffer.sink outer (.step (.beginFile name)) i).failure? ≠ none →
        (perform FileBuffer.sink outer (.step (.beginFile name)) i).state =
          { depth := 0, pending := true, inner := i.inner }) ∧
    (∀ (i : Indented (Indented FileBuffer)) (name : String),
      (perform (sink FileBuffer.sink inner) outer (.step (.beginFile name)) i).failure? ≠ none →
        (perform (sink FileBuffer.sink inner) outer (.step (.beginFile name)) i).state =
          { depth := 0, pending := true,
            inner := { depth := 0, pending := true, inner := i.inner.inner } }) := by
  have hfiles := guarded_fileBuffer
  have hinner := hfiles.indented inner
  refine ⟨fun i steps => ?_, fun i steps => ?_, fun i name hfails => ?_, fun i name hfails => ?_⟩
  · exact hfiles.failsCleanly (fun s t hst => congrArg FileBuffer.files hst)
      (fun i hi => rewound_eq_self_iff.mpr ⟨hi, rfl⟩) outer i steps
  · exact hinner.failsCleanly (fun s t hst => congrArg FileBuffer.files hst.inner)
      (fun i hi => rewound_eq_self_iff.mpr ⟨hi.1, rewound_eq_self_iff.mpr ⟨hi.2, rfl⟩⟩) outer i
      steps
  · exact (hfiles.indented outer).rewinds hfails
  · exact (hinner.indented outer).rewinds hfails

/-- A line end before any file has begun and a file that is begun again at once, below a depth of
one, and the same file begun again at another depth. -/
theorem failed_steps_rewind_stacked :
    (behind (sink FileBuffer.sink "+") "-" [.step .newline, .step (.beginFile "a"),
        .step (.beginFile "a"), .indent 1, .step (.writeChar 'x')]
        { inner := { depth := 1, inner := {} } }).inner.inner.files = [("a", "-x")] ∧
      (behind (sink FileBuffer.sink "+") "-" [.step (.beginFile "a"), .indent 1,
        .step (.writeChar 'x')] { inner := { depth := 1, inner := {} } }).inner.inner.files =
          [("a", "-x")] ∧
      ¬ CanLeaveOut FileBuffer.sink "-" FileBuffer.files (fun _ => true)
        [.step (.beginFile "a"), .indent 0]
        { depth := 1, inner := { current? := some ("a", "") } } := by
  obtain ⟨hone, htwo, -, -⟩ := failed_steps_rewind "-" "+"
  have hall := (htwo { inner := { depth := 1, inner := {} } } [.step .newline,
    .step (.beginFile "a"), .step (.beginFile "a"), .indent 1, .step (.writeChar 'x')]).all (by
      rintro (_ | ⟨_, _ | ⟨_, _ | ⟨_, _ | ⟨_, _ | ⟨_, first⟩⟩⟩⟩⟩) name last hsteps hfails <;>
        simp at hsteps
      · obtain ⟨rfl, rfl, rfl⟩ := hsteps
        exact absurd rfl hfails
      · obtain ⟨rfl, rfl, rfl, rfl⟩ := hsteps
        exact ⟨by decide, by decide⟩)
  have hseen := (hone { depth := 1, inner := { current? := some ("a", "") } } []).seen "a"
    (by decide) (by decide)
  exact ⟨by decide, hall.look.trans (by decide), hseen⟩

/-- A file that is begun again takes the indentation back, although this fails. -/
theorem failed_beginning_moves_depth :
    ¬ CanLeaveOut FileBuffer.sink "  " FileBuffer.files (fun _ => true)
      [.step (.beginFile "a"), .indent 1, .step (.beginFile "a"), .step (.write "x")]
      { inner := {} } := by
  intro h
  exact absurd h.look (by decide)

end Indented

end ApiClient
