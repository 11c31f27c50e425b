import Mathlib.Tactic.Common
import ApiClient.Proofs.Sink.Indented

/-!
# The layout of indented text

An indenting sink writes line by line: what was written on a line stands behind the indentation that
was valid at its first write, and a line without a write is empty.

* `Step.data?`, `Step.amount?`: what a step writes, and what it adds to the depth;
* `depthAfter`, `depthAfter_eq_clampedSum`: the depth behind steps is a sum that is kept in bounds;
* `rows`, `lineOf`, `layout`, `laid`: the lines that steps lay out;
* `performAll_laid`: a run writes the lines that its steps lay out;
* `indented_lays_out_lines`: all of this for one indenting sink over a text, and for two.
-/

namespace ApiClient.Indented

variable {ε σ : Type}

/-! ## What steps say -/

/-- The text that a step writes, if it writes one. -/
def Step.data? : Step → Option String
  | .step (.write data) => some data
  | .step (.writeChar c) => some (String.singleton c)
  | .step .newline | .step (.beginFile _) | .indent _ => none

/-- What a step adds to the depth, if it does. -/
def Step.amount? : Step → Option Int
  | .indent amount => some amount
  | .step _ => none

/-- The step that ends a line. -/
def lineEnd : Step := .step .newline

/-- Steps among which no file begins. -/
def InOneFile (steps : List Step) : Prop := ∀ name, .step (.beginFile name) ∉ steps

theorem InOneFile.of_cons {step : Step} {steps : List Step} (h : InOneFile (step :: steps)) :
    InOneFile steps :=
  fun name hmem => h name (List.mem_cons_of_mem step hmem)

theorem inOneFile_append {first second : List Step} :
    InOneFile (first ++ second) ↔ InOneFile first ∧ InOneFile second := by
  simp only [InOneFile, List.mem_append, not_or, forall_and]

/-- The depth behind steps that begin at `depth`. -/
def depthAfter (depth : Nat) (steps : List Step) : Nat :=
  (steps.filterMap Step.amount?).foldl moved depth

theorem depthAfter_append (depth : Nat) (first second : List Step) :
    depthAfter depth (first ++ second) = depthAfter (depthAfter depth first) second := by
  simp [depthAfter]

theorem depthAfter_of_amount? {step : Step} (h : step.amount? = none) (depth : Nat)
    (steps : List Step) : depthAfter depth (step :: steps) = depthAfter depth steps := by
  rw [depthAfter, List.filterMap_cons_none h, depthAfter]

/-- The running sum of amounts, kept between zero and the largest number of 32 bits at each of
them. -/
def clampedSum (amounts : List Int) : Int :=
  amounts.foldl (fun sum amount => max 0 (min (sum + amount) 0xFFFFFFFF)) 0

theorem moved_eq_clamped (depth : Nat) (amount : Int) :
    ((moved depth amount : Nat) : Int) = max 0 (min (depth + amount) 0xFFFFFFFF) := by
  simp only [moved, maxDepth]
  omega

theorem depthAfter_eq_clampedSum (steps : List Step) :
    ((depthAfter 0 steps : Nat) : Int) = clampedSum (steps.filterMap Step.amount?) := by
  have h : ∀ (amounts : List Int) (depth : Nat), ((amounts.foldl moved depth : Nat) : Int) =
      amounts.foldl (fun sum amount => max 0 (min (sum + amount) 0xFFFFFFFF)) (depth : Int) := by
    intro amounts
    induction amounts with
    | nil => exact fun depth => rfl
    | cons amount amounts ih =>
      intro depth
      rw [List.foldl_cons, List.foldl_cons, ih, moved_eq_clamped]
  exact h _ 0

/-! ## Lines -/

/-- The steps of each line, without those that end the lines. -/
def rows (steps : List Step) : List (List Step) := steps.splitOn lineEnd

theorem rows_of_not_mem {row : List Step} (h : lineEnd ∉ row) : rows row = [row] :=
  List.splitOn_eq_singleton h

theorem rows_append {row : List Step} (h : lineEnd ∉ row) (steps : List Step) :
    rows (row ++ lineEnd :: steps) = row :: rows steps :=
  List.splitOn_append_cons_self_of_not_mem h steps

theorem rows_ne_nil (steps : List Step) : rows steps ≠ [] := List.splitOn_ne_nil _ _

/-- All that is written on a line. -/
def written (row : List Step) : List Char := (row.filterMap Step.data?).flatMap String.toList

/-- The text of a line whose steps begin at `depth`: what is written, behind the indentation at the
depth of the first write. -/
def lineOf (indentAt : Nat → List Char) (depth : Nat) (row : List Step) : List Char :=
  if row.all (·.data?.isNone) then []
  else indentAt (depthAfter depth (row.takeWhile (·.data?.isNone))) ++ written row

variable {indentAt : Nat → List Char}

theorem written_cons {step : Step} {data : String} (h : step.data? = some data)
    (row : List Step) : written (step :: row) = data.toList ++ written row := by
  rw [written, List.filterMap_cons_some h, List.flatMap_cons, written]

theorem lineOf_write {step : Step} {data : String} (h : step.data? = some data) (depth : Nat)
    (row : List Step) :
    lineOf indentAt depth (step :: row) = indentAt depth ++ (data.toList ++ written row) := by
  have hnone : step.data?.isNone = false := by simp [h]
  rw [lineOf, List.all_cons, hnone, Bool.false_and, if_neg Bool.false_ne_true,
    List.takeWhile_cons_of_neg (by simp [hnone]), written_cons h]
  rfl

/-- The lines of rows. The first one begins at `depth`. -/
def layout (indentAt : Nat → List Char) : Nat → List (List Step) → List (List Char)
  | _, [] => []
  | depth, row :: rows => lineOf indentAt depth row :: layout indentAt (depthAfter depth row) rows

/-- The text that steps lay out: its lines, with a line end between each two. -/
def laid (indentAt : Nat → List Char) (depth : Nat) (steps : List Step) : List Char :=
  ['\n'].intercalate (layout indentAt depth (rows steps))

theorem laid_of_not_mem {row : List Step} (h : lineEnd ∉ row) (depth : Nat) :
    laid indentAt depth row = lineOf indentAt depth row := by
  rw [laid, rows_of_not_mem h, layout, layout, List.intercalate_singleton]

theorem laid_append {row : List Step} (h : lineEnd ∉ row) (depth : Nat) (steps : List Step) :
    laid indentAt depth (row ++ lineEnd :: steps) =
      lineOf indentAt depth row ++ '\n' :: laid indentAt (depthAfter depth row) steps := by
  rw [laid, laid, rows_append h, layout]
  cases hrows : rows steps with
  | nil => exact absurd hrows (rows_ne_nil steps)
  | cons next more =>
    rw [layout, List.intercalate_cons_cons, List.append_assoc]
    rfl

/-! ## Runs -/

namespace HoldsLines

variable {below : Sink ε σ} {lead : List Char} {holding : Bool → List Char → σ}
  (h : HoldsLines below lead holding)
include h

theorem perform_data (indent : String) {step : Step} {data : String}
    (hstep : step.data? = some data) (depth : Nat) (pending : Bool) (text : List Char) :
    perform below indent step (atop holding depth pending text) =
      { state := atop holding depth false
          (text ++ (if pending then lead ++ indentOf indent depth else []) ++ data.toList) } := by
  have hwrite := (h.indented indent depth).write
  unfold Step.data? at hstep
  split at hstep
  · obtain rfl := Option.some.inj hstep
    exact hwrite _ pending text
  · obtain rfl := Option.some.inj hstep
    exact hwrite _ pending text
  all_goals cases hstep

theorem perform_lineEnd (indent : String) (depth : Nat) (pending : Bool) (text : List Char) :
    perform below indent lineEnd (atop holding depth pending text) =
      { state := atop holding depth true (text ++ ['\n']) } :=
  (h.indented indent depth).newline pending text

omit h in
/-- On a line there are writes and changes of the depth. -/
theorem step_cases {step : Step} {row : List Step} (hend : lineEnd ∉ step :: row)
    (hfile : InOneFile (step :: row)) :
    (∃ data, step.data? = some data ∧ step.amount? = none) ∨ ∃ amount, step = .indent amount := by
  match step with
  | .indent amount => exact .inr ⟨amount, rfl⟩
  | .step (.write data) => exact .inl ⟨data, rfl, rfl⟩
  | .step (.writeChar c) => exact .inl ⟨_, rfl, rfl⟩
  | .step .newline => exact absurd List.mem_cons_self hend
  | .step (.beginFile name) => exact absurd List.mem_cons_self (hfile name)

/-- Behind the first write of a line, the others go directly into the text. -/
theorem performAll_begun (indent : String) {row : List Step} (hend : lineEnd ∉ row)
    (hfile : InOneFile row) (depth : Nat) (text : List Char) :
    performAll below indent row (atop holding depth false text) =
      { state := atop holding (depthAfter depth row) false (text ++ written row) } := by
  induction row generalizing depth text with
  | nil => simp [performAll, depthAfter, written]
  | cons step row ih =>
    have ih := ih (fun hmem => hend (List.mem_cons_of_mem step hmem)) hfile.of_cons
    rcases step_cases hend hfile with ⟨data, hdata, hamount⟩ | ⟨amount, rfl⟩
    · rw [performAll, h.perform_data indent hdata, Outcome.andThen_of_success, ih,
        depthAfter_of_amount? hamount, written_cons hdata]
      simp
    · exact ih (moved depth amount) text

/-- The steps of a line write it, at the depth of the first write. -/
theorem performAll_row (indent : String) {row : List Step} (hend : lineEnd ∉ row)
    (hfile : InOneFile row) (depth : Nat) (text : List Char) :
    performAll below indent row (atop holding depth true text) =
      { state := atop holding (depthAfter depth row) (row.all (·.data?.isNone))
          (text ++ lineOf (fun d => lead ++ indentOf indent d) depth row) } := by
  induction row generalizing depth with
  | nil => simp [performAll, depthAfter, lineOf]
  | cons step row ih =>
    have hend' : lineEnd ∉ row := fun hmem => hend (List.mem_cons_of_mem step hmem)
    rcases step_cases hend hfile with ⟨data, hdata, hamount⟩ | ⟨amount, rfl⟩
    · rw [performAll, h.perform_data indent hdata, Outcome.andThen_of_success,
        h.performAll_begun indent hend' hfile.of_cons, depthAfter_of_amount? hamount,
        lineOf_write hdata]
      simp [hdata]
    · exact ih hend' hfile.of_cons (moved depth amount)

/-- A run writes what its steps lay out. -/
theorem performAll_laid (indent : String) {steps : List Step} (hfile : InOneFile steps)
    (depth : Nat) (text : List Char) :
    ∃ pending, performAll below indent steps (atop holding depth true text) =
      { state := atop holding (depthAfter depth steps) pending
          (text ++ laid (fun d => lead ++ indentOf indent d) depth steps) } := by
  -- the steps of one line are gone behind each round
  induction hn : steps.length using Nat.strongRecOn generalizing steps depth text with
  | ind n ih =>
    by_cases hmem : lineEnd ∈ steps
    · obtain ⟨row, rest, rfl, hend⟩ := List.eq_append_cons_of_mem hmem
      obtain ⟨hrow, hrest⟩ := inOneFile_append.mp hfile
      have hlt : rest.length < n := by
        rw [← hn, List.length_append, List.length_cons]
        omega
      obtain ⟨pending, hrun⟩ := ih rest.length hlt hrest.of_cons (depthAfter depth row)
        (text ++ lineOf (fun d => lead ++ indentOf indent d) depth row ++ ['\n']) rfl
      refine ⟨pending, ?_⟩
      rw [performAll_append, h.performAll_row indent hend hrow, Outcome.andThen_of_success,
        performAll, h.perform_lineEnd, Outcome.andThen_of_success, hrun, laid_append hend,
        depthAfter_append, depthAfter_of_amount? rfl]
      simp
    · exact ⟨_, by rw [laid_of_not_mem hmem, h.performAll_row indent hmem hfile]⟩

end HoldsLines

/-! ## One indenting sink over a text, and two -/

/-- A run of steps from `start` on does not fail, leaves the clamped sum of the amounts as the depth
behind each of its steps, and puts the lines that it lays out behind the text that is there. -/
structure LaysOut (below : Sink ε σ) (indent : String) (indentAt : Nat → List Char)
    (textOf : σ → String) (start : Indented σ) (steps : List Step) : Prop where
  succeeds : (performAll below indent steps start).failure? = none
  depth : ∀ k, ((performAll below indent (steps.take k) start).state.depth : Int) =
    clampedSum ((steps.take k).filterMap Step.amount?)
  text : (textOf (performAll below indent steps start).state.inner).toList =
    (textOf start.inner).toList ++ laid indentAt 0 steps

theorem HoldsLines.laysOut {below : Sink ε σ} {lead : List Char} {holding : Bool → List Char → σ}
    (h : HoldsLines below lead holding) (indent : String) (textOf : σ → String)
    (htext : ∀ pending text, textOf (holding pending text) = String.ofList text)
    (text : List Char) {steps : List Step} (hfile : InOneFile steps) :
    LaysOut below indent (fun d => lead ++ indentOf indent d) textOf (atop holding 0 true text)
      steps where
  succeeds := by
    obtain ⟨pending, hrun⟩ := h.performAll_laid indent hfile 0 text
    rw [hrun]
  depth k := by
    have htake : InOneFile (steps.take k) := fun name hmem => hfile name (List.mem_of_mem_take hmem)
    obtain ⟨pending, hrun⟩ := h.performAll_laid indent htake 0 text
    rw [hrun, ← depthAfter_eq_clampedSum]
    rfl
  text := by
    obtain ⟨pending, hrun⟩ := h.performAll_laid indent hfile 0 text
    rw [hrun]
    simp [atop, htext]

/-- The indentation of a line is chosen at its first write, so the depth may change before or behind
the end of the line before. -/
theorem performAll_indent_lineEnd {below : Sink ε σ}
    (hbelow : ∀ s, (below.newline s).failure? = none) (indent : String)
    (first second : List Step) (amount : Int) (i : Indented σ) :
    performAll below indent (first ++ .indent amount :: lineEnd :: second) i =
      performAll below indent (first ++ lineEnd :: .indent amount :: second) i := by
  have hswap : ∀ i, performAll below indent (.indent amount :: lineEnd :: second) i =
      performAll below indent (lineEnd :: .indent amount :: second) i := by
    intro i
    simp only [performAll, perform, lineEnd, Sink.perform, sink, newline, move,
      Outcome.andThen_of_success, Outcome.map, hbelow]
  rw [performAll_append, performAll_append, funext hswap]

/-- Indented text is laid out in lines, over a text and over another indenting sink. A file that
begins takes all indentation back, and a change of the depth may stand on both sides of a line
end. -/
theorem indented_lays_out_lines (outer inner : String) :
    (∀ (b : Buffer) (steps : List Step), InOneFile steps →
      LaysOut (Buffer.sink ε) outer (indentOf outer) Buffer.text { inner := b } steps) ∧
    (∀ (b : Buffer) (innerDepth : Nat) (steps : List Step), InOneFile steps →
      LaysOut (sink (Buffer.sink ε) inner) outer
        (fun depth => indentOf inner innerDepth ++ indentOf outer depth) (fun i => i.inner.text)
        { inner := { depth := innerDepth, inner := b } } steps) ∧
    (∀ (name : String) (i : Indented Buffer),
      perform (Buffer.sink ε) outer (.step (.beginFile name)) i =
        { state := { depth := 0, pending := true, inner := i.inner } }) ∧
    (∀ (name : String) (i : Indented (Indented Buffer)),
      perform (sink (Buffer.sink ε) inner) outer (.step (.beginFile name)) i =
        { state := { depth := 0, pending := true,
                     inner := { depth := 0, pending := true, inner := i.inner.inner } } }) ∧
    (∀ (first second : List Step) (amount : Int) (i : Indented Buffer),
      performAll (Buffer.sink ε) outer (first ++ .indent amount :: .step .newline :: second) i =
        performAll (Buffer.sink ε) outer (first ++ .step .newline :: .indent amount :: second) i) ∧
    (∀ (first second : List Step) (amount : Int) (i : Indented (Indented Buffer)),
      performAll (sink (Buffer.sink ε) inner) outer
          (first ++ .indent amount :: .step .newline :: second) i =
        performAll (sink (Buffer.sink ε) inner) outer
          (first ++ .step .newline :: .indent amount :: second) i) := by
  have hbuffer := holdsLines_buffer (ε := ε)
  refine ⟨?_, ?_, fun _ _ => rfl, fun _ _ => rfl, ?_, ?_⟩
  · intro b steps hfile
    have hlays := hbuffer.laysOut outer Buffer.text (fun _ _ => rfl) b.text.toList hfile
    simpa [atop] using hlays
  · intro b innerDepth steps hfile
    have hlays := (hbuffer.indented inner innerDepth).laysOut outer
      (fun i => i.inner.text) (fun _ _ => rfl) b.text.toList hfile
    simpa [atop] using hlays
  · exact performAll_indent_lineEnd (fun _ => rfl) outer
  · exact performAll_indent_lineEnd (fun _ => rfl) outer

/-- A blank line, a line end inside of data, and a depth that goes below zero, over a sink of depth
one that is not empty. -/
theorem indented_lays_out_lines_stacked :
    InOneFile [.indent 2, .step .newline, .step (.write "x\ny"), .indent (-9), .step .newline,
        .step (.writeChar 'z')] ∧
      (performAll (sink (Buffer.sink Empty) "-") "+"
        [.indent 2, .step .newline, .step (.write "x\ny"), .indent (-9), .step .newline,
          .step (.writeChar 'z')]
        { inner := { depth := 1, inner := { text := ">" } } }).state.inner.inner.text.toList =
        ">\n-++x\ny\n-z".toList := by
  have hfile : InOneFile [.indent 2, .step .newline, .step (.write "x\ny"), .indent (-9),
      .step .newline, .step (.writeChar 'z')] := by
    intro name
    simp
  obtain ⟨-, hstacked, -⟩ := indented_lays_out_lines (ε := Empty) "+" "-"
  exact ⟨hfile, (hstacked { text := ">" } 1 _ hfile).text.trans (by decide)⟩

end ApiClient.Indented
