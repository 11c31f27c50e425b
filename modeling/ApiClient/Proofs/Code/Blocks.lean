import Mathlib.Data.List.Chain
import ApiClient.Proofs.Code.Lines
import ApiClient.Proofs.Text.Braces
import ApiClient.Text.Trim

/-!
# The block structure of code

* `BlockStructured`: a text whose lines are indented by the braces around them;
* `Code.Tidy`: code with lines that begin and end visibly and are balanced;
* `Code.Parted`: code without two empty lines in a row;
* `Code.Blocks`: lines that lead from one number of open braces to another;
* `blocks_linesOfAll`, `isChain_linesOfAll`: the lines of such code;
* `blockStructured_render`: the text of such code.
-/

namespace ApiClient

open Text Text.Braces

/-! ## Block structure -/

/-- Where a line begins, in blocks, if so many braces are open before it. A line that begins with a
closing brace stands outside of the block that it closes. -/
def depthOf (line : List Char) (depth : Nat) : Nat :=
  if (line.dropWhile (· == ' ')).head? = some '}' then depth - 1 else depth

/-- The number of spaces that a line begins with. -/
def spacesOf (line : List Char) : Nat := (line.takeWhile (· == ' ')).length

/-- A text in blocks. Its braces outside of literals are balanced, every line that is not empty is
indented by four spaces for each block around it and ends visibly, no two empty lines follow each
other, and the last line has one end. -/
structure BlockStructured (text : List Char) : Prop where
  balanced : scan (.code 0) text = some (.code 0)
  indented : ∀ before line after, split '\n' text = before ++ line :: after → line ≠ [] →
    ∃ depth, scan (.code 0) (before.flatMap (· ++ ['\n'])) = some (.code depth) ∧
      spacesOf line = 4 * depthOf line depth
  visible : ∀ line ∈ split '\n' text, ∀ c, line.getLast? = some c → isBlank c = false
  parted : (split '\n' text).IsChain fun line next => line ≠ [] ∨ next ≠ []
  ended : ∃ init c, c ≠ '\n' ∧ text = init ++ [c, '\n']

namespace Code

/-! ## Tidy code -/

/-- Whether a text begins with something else than a space or a closing brace. -/
def beginsInside (s : List Char) : Bool := s.head?.any fun c => c != ' ' && c != '}'

/-- Whether a text ends with something else than white space. -/
def endsVisibly (s : List Char) : Bool := s.getLast?.any fun c => !isBlank c

theorem beginsInside_append {s : List Char} (h : beginsInside s = true) (t : List Char) :
    beginsInside (s ++ t) = true := by
  cases s with
  | nil => cases h
  | cons c s => exact h

theorem endsVisibly_append {t : List Char} (h : endsVisibly t = true) (s : List Char) :
    endsVisibly (s ++ t) = true := by
  rw [endsVisibly, Option.any_eq_true] at h ⊢
  obtain ⟨c, hlast, hc⟩ := h
  exact ⟨c, by rw [List.getLast?_append, hlast, Option.some_or], hc⟩

theorem ne_nil_of_beginsInside {s : List Char} (h : beginsInside s = true) : s ≠ [] := by
  rintro rfl
  cases h

mutual

/-- Code whose lines begin and end visibly, and open and close no braces but those of blocks. -/
def Tidy : Code → Prop
  | .line text =>
    beginsInside text.toList = true ∧ endsVisibly text.toList = true ∧ Balanced text.toList
  | .blank => True
  | .block head body tail =>
    beginsInside head.toList = true ∧ Balanced head.toList ∧ TidyAll body ∧
      endsVisibly ('}' :: tail.toList) = true ∧ Balanced tail.toList

/-- Pieces of code that are tidy. -/
def TidyAll : List Code → Prop
  | [] => True
  | c :: rest => Tidy c ∧ TidyAll rest

end

theorem tidyAll_iff {code : List Code} : TidyAll code ↔ ∀ c ∈ code, c.Tidy := by
  induction code with
  | nil => simp [TidyAll]
  | cons c code ih => rw [TidyAll, ih, List.forall_mem_cons]

theorem tidyAll_append {first second : List Code} :
    TidyAll (first ++ second) ↔ TidyAll first ∧ TidyAll second := by
  simp only [tidyAll_iff, List.forall_mem_append]

theorem tidyAll_spaced {code : List Code} (h : TidyAll code) : TidyAll (spaced code) := by
  rw [tidyAll_iff] at h ⊢
  intro c hc
  obtain ⟨c', hc', hc⟩ := List.mem_flatMap.mp hc
  rw [List.mem_cons, List.mem_singleton] at hc
  rcases hc with rfl | rfl
  · trivial
  · exact h c hc'

/-- A line of fixed text. -/
theorem tidy_line {text : String} {l : List Char} (ht : text = String.ofList l)
    (hbegins : beginsInside l = true) (hends : endsVisibly l = true)
    (hscan : scan (.code 0) l = some (.code 0)) : (line text).Tidy := by
  rw [Tidy, ht, String.toList_ofList]
  exact ⟨hbegins, hends, balanced_of_scan hscan⟩

/-- A line of balanced text between two fixed ones. -/
theorem tidy_between {before s after : String} {l m : List Char} (hb : before = String.ofList l)
    (ha : after = String.ofList m) (hbegins : beginsInside l = true)
    (hends : endsVisibly m = true) (depth : Nat) (hl : scan (.code 0) l = some (.code depth))
    (hm : scan (.code depth) m = some (.code 0)) (hs : Balanced s.toList) :
    (line (before ++ s ++ after)).Tidy := by
  have htext : (before ++ s ++ after).toList = l ++ s.toList ++ m := by
    rw [hb, ha, String.toList_append, String.toList_append, String.toList_ofList,
      String.toList_ofList]
  rw [Tidy, htext]
  refine ⟨?_, endsVisibly_append hends _, hs.between depth hl hm⟩
  rw [List.append_assoc]
  exact beginsInside_append hbegins _

/-- A line of balanced text before a fixed one. -/
theorem tidy_before {s after : String} {m : List Char} (ha : after = String.ofList m)
    (hends : endsVisibly m = true) (hm : scan (.code 0) m = some (.code 0))
    (hbegins : beginsInside s.toList = true) (hs : Balanced s.toList) :
    (line (s ++ after)).Tidy := by
  rw [Tidy, ha, String.toList_append, String.toList_ofList]
  exact ⟨beginsInside_append hbegins _, endsVisibly_append hends _,
    hs.append (balanced_of_scan hm)⟩

/-- A block with fixed text before and behind it. -/
theorem tidy_block {head tail : String} {l m : List Char} (hh : head = String.ofList l)
    (ht : tail = String.ofList m) (hbegins : beginsInside l = true)
    (hends : endsVisibly ('}' :: m) = true) (hl : scan (.code 0) l = some (.code 0))
    (hm : scan (.code 0) m = some (.code 0)) {body : List Code} (hbody : TidyAll body) :
    (block head body tail).Tidy := by
  rw [Tidy, hh, ht, String.toList_ofList, String.toList_ofList]
  exact ⟨hbegins, balanced_of_scan hl, hbody, hends, balanced_of_scan hm⟩

/-- A block behind balanced text between two fixed ones. -/
theorem tidy_braces_between {before s after : String} {l m : List Char}
    (hb : before = String.ofList l) (ha : after = String.ofList m)
    (hbegins : beginsInside l = true) (hl : scan (.code 0) l = some (.code 0))
    (hm : scan (.code 0) m = some (.code 0)) (hs : Balanced s.toList) {body : List Code}
    (hbody : TidyAll body) : (braces (before ++ s ++ after) body).Tidy := by
  have htext : (before ++ s ++ after).toList = l ++ s.toList ++ m := by
    rw [hb, ha, String.toList_append, String.toList_append, String.toList_ofList,
      String.toList_ofList]
  rw [braces, Tidy, htext]
  refine ⟨?_, hs.between 0 hl hm, hbody, rfl, fun _ => rfl⟩
  rw [List.append_assoc]
  exact beginsInside_append hbegins _

/-! ## Empty lines -/

/-- Whether a piece of code is an empty line. -/
def isEmpty : Code → Bool
  | .blank => true
  | .line _ | .block _ _ _ => false

mutual

/-- Code without two empty lines in a row. -/
def Parted : Code → Prop
  | .line _ | .blank => True
  | .block _ body _ => PartedAll body

/-- Pieces of code without two empty lines in a row. -/
def PartedAll : List Code → Prop
  | [] => True
  | c :: rest =>
    Parted c ∧ PartedAll rest ∧ (c.isEmpty = false ∨ ∀ next ∈ rest.head?, next.isEmpty = false)

end

theorem partedAll_cons {c : Code} (h : c.isEmpty = false) {code : List Code} :
    PartedAll (c :: code) ↔ c.Parted ∧ PartedAll code := by
  simp [PartedAll, h]

theorem partedAll_blank {c : Code} (h : c.isEmpty = false) {code : List Code} :
    PartedAll (.blank :: c :: code) ↔ PartedAll (c :: code) := by
  simp [PartedAll, Parted, h]

/-- An empty line may stand before each piece of code that is none. -/
theorem partedAll_spaced {code : List Code} (h : ∀ c ∈ code, c.Parted ∧ c.isEmpty = false) :
    PartedAll (spaced code) := by
  induction code with
  | nil => trivial
  | cons c code ih =>
    obtain ⟨⟨hparted, hempty⟩, h⟩ := List.forall_mem_cons.mp h
    have hhead : ∀ next ∈ (c :: spaced code).head?, next.isEmpty = false := by
      intro next hnext
      obtain rfl := Option.some.inj hnext
      exact hempty
    exact ⟨trivial, ⟨hparted, ih h, .inl hempty⟩, .inr hhead⟩

/-! ## Lines in blocks -/

theorem spacesOf_indented (depth : Nat) {text : List Char} (h : text.head? ≠ some ' ') :
    spacesOf (indented depth text) = 4 * depth := by
  have htext : text.takeWhile (· == ' ') = [] := by
    cases text with
    | nil => rfl
    | cons c text => simpa using h
  rw [spacesOf, indented_eq, List.takeWhile_append_of_pos, htext, List.append_nil,
    List.length_replicate]
  intro c hc
  simp [List.eq_of_mem_replicate hc]

theorem head?_of_beginsInside {text : List Char} (h : beginsInside text = true) :
    text.head? ≠ some ' ' ∧ text.head? ≠ some '}' := by
  cases text with
  | nil => simp
  | cons c text => simpa [beginsInside] using h

/-- Where a line begins is seen behind its indentation. -/
theorem depthOf_indented (depth blocks : Nat) {text : List Char} (h : text.head? ≠ some ' ') :
    depthOf (indented depth text) blocks =
      if text.head? = some '}' then blocks - 1 else blocks := by
  have htext : text.dropWhile (· == ' ') = text := by
    cases text with
    | nil => rfl
    | cons c text => simpa using h
  rw [depthOf, dropWhile_indented, htext]

theorem scan_indented (place : Nat) (depth : Nat) (text : List Char) :
    scan (.code place) (indented depth text) = scan (.code place) text := by
  have hspaces : Balanced (List.replicate (4 * depth) ' ') := by
    have hne : ∀ c : Char, c ≠ ' ' → c ∉ List.replicate (4 * depth) ' ' :=
      fun c hc hmem => hc (List.eq_of_mem_replicate hmem)
    exact balanced_of_not_mem (hne _ (by decide)) (hne _ (by decide)) (hne _ (by decide))
  rw [indented_eq, scan_append, hspaces place, Option.bind_some]

/-- Lines that lead from so many open braces to so many. Each is empty or indented by the blocks
around it, ends visibly, and leaves the reader outside of literals. -/
inductive Blocks : Nat → List (List Char) → Nat → Prop
  | nil (depth : Nat) : Blocks depth [] depth
  | blank {depth last : Nat} {lines : List (List Char)} (h : Blocks depth lines last) :
      Blocks depth ([] :: lines) last
  | line {depth inner last : Nat} {line : List Char} {lines : List (List Char)}
      (hindent : spacesOf line = 4 * depthOf line depth) (hends : endsVisibly line = true)
      (hscan : scan (.code depth) line = some (.code inner)) (h : Blocks inner lines last) :
      Blocks depth (line :: lines) last

theorem Blocks.append {depth middle last : Nat} {first second : List (List Char)}
    (h : Blocks depth first middle) (h' : Blocks middle second last) :
    Blocks depth (first ++ second) last := by
  induction h with
  | nil depth => exact h'
  | blank _ ih => exact .blank (ih h')
  | line hindent hends hscan _ ih => exact .line hindent hends hscan (ih h')

theorem Blocks.single {depth inner : Nat} {line : List Char}
    (hindent : spacesOf line = 4 * depthOf line depth) (hends : endsVisibly line = true)
    (hscan : scan (.code depth) line = some (.code inner)) : Blocks depth [line] inner :=
  .line hindent hends hscan (.nil inner)

/-- A line of a block begins inside of all blocks around it. -/
theorem Blocks.inside {depth inner : Nat} {text : List Char} (hbegins : beginsInside text = true)
    (hends : endsVisibly text = true) (hscan : scan (.code depth) text = some (.code inner)) :
    Blocks depth [indented depth text] inner := by
  obtain ⟨hspace, hclose⟩ := head?_of_beginsInside hbegins
  have hindent : spacesOf (indented depth text) = 4 * depthOf (indented depth text) depth := by
    rw [spacesOf_indented depth hspace, depthOf_indented depth depth hspace, if_neg hclose]
  refine .single hindent ?_ (by rw [scan_indented, hscan])
  rw [indented_eq]
  exact endsVisibly_append hends _

/-- A line that closes a block begins outside of it. -/
theorem Blocks.closing {depth : Nat} {tail : List Char} (hends : endsVisibly ('}' :: tail) = true)
    (hscan : Balanced tail) : Blocks (depth + 1) [indented depth ('}' :: tail)] depth := by
  have hspace : ('}' :: tail).head? ≠ some ' ' := by simp
  have hindent : spacesOf (indented depth ('}' :: tail)) =
      4 * depthOf (indented depth ('}' :: tail)) (depth + 1) := by
    rw [spacesOf_indented depth hspace, depthOf_indented depth _ hspace, List.head?_cons,
      if_pos rfl]
    rfl
  refine .single hindent ?_ (by rw [scan_indented]; exact hscan depth)
  rw [indented_eq]
  exact endsVisibly_append hends _

mutual

/-- The lines of a tidy piece of code come back to the block where they begin. -/
theorem blocks_lines : ∀ (c : Code) (depth : Nat), c.Tidy → Blocks depth (c.lines depth) depth
  | .line text, depth, h => by
    obtain ⟨hbegins, hends, hbalanced⟩ := h
    rw [lines]
    exact .inside hbegins hends (hbalanced depth)
  | .blank, depth, _ => .blank (.nil depth)
  | .block head body tail, depth, h => by
    obtain ⟨hbegins, hhead, hbody, hends, htail⟩ := h
    have hopening : Blocks depth [indented depth (head.toList ++ ['{'])] (depth + 1) := by
      refine .inside (beginsInside_append hbegins _) (endsVisibly_append rfl _) ?_
      rw [scan_append, hhead depth]
      rfl
    rw [lines]
    exact hopening.append ((blocks_linesOfAll body (depth + 1) hbody).append (.closing hends htail))

theorem blocks_linesOfAll : ∀ (code : List Code) (depth : Nat), TidyAll code →
    Blocks depth (linesOfAll depth code) depth
  | [], depth, _ => .nil depth
  | c :: rest, depth, h => by
    obtain ⟨hc, hrest⟩ := h
    rw [linesOfAll]
    exact (blocks_lines c depth hc).append (blocks_linesOfAll rest depth hrest)

end

/-! ## What lines in blocks say about a text -/

theorem Blocks.scan_ended {depth last : Nat} {lines : List (List Char)}
    (h : Blocks depth lines last) : scan (.code depth) (ended lines) = some (.code last) := by
  induction h with
  | nil depth => rfl
  | blank _ ih => exact ih
  | @line depth inner last line lines hindent hends hscan _ ih =>
    have hend : next (.code inner) '\n' = some (.code inner) := rfl
    rw [ended, List.flatMap_cons, List.append_assoc, scan_append, hscan, Option.bind_some,
      List.singleton_append, scan, hend, Option.bind_some, ← ended, ih]

theorem Blocks.of_append {depth last : Nat} {before lines : List (List Char)}
    (h : Blocks depth (before ++ lines) last) :
    ∃ middle, Blocks depth before middle ∧ Blocks middle lines last := by
  induction before generalizing depth with
  | nil => exact ⟨depth, .nil depth, h⟩
  | cons line before ih =>
    cases h with
    | blank h =>
      obtain ⟨middle, hbefore, hlines⟩ := ih h
      exact ⟨middle, .blank hbefore, hlines⟩
    | line hindent hends hscan h =>
      obtain ⟨middle, hbefore, hlines⟩ := ih h
      exact ⟨middle, .line hindent hends hscan hbefore, hlines⟩

theorem Blocks.visible {depth last : Nat} {lines : List (List Char)}
    (h : Blocks depth lines last) : ∀ line ∈ lines, line ≠ [] → endsVisibly line = true := by
  induction h with
  | nil depth => simp
  | blank _ ih => simpa using ih
  | line hindent hends hscan _ ih =>
    rw [List.forall_mem_cons]
    exact ⟨fun _ => hends, ih⟩

/-- A line that is not empty is indented by the blocks around it. -/
theorem Blocks.indent {depth last : Nat} {before after : List (List Char)} {line : List Char}
    (h : Blocks depth (before ++ line :: after) last) (hline : line ≠ []) :
    ∃ inner, scan (.code depth) (ended before) = some (.code inner) ∧
      spacesOf line = 4 * depthOf line inner := by
  obtain ⟨inner, hbefore, hlines⟩ := h.of_append
  refine ⟨inner, hbefore.scan_ended, ?_⟩
  cases hlines with
  | blank _ => exact absurd rfl hline
  | line hindent _ _ _ => exact hindent

/-! ## Empty lines among the lines of code -/

/-- Lines of which at most one is empty. -/
def NotBothEmpty (line next : List Char) : Prop := line ≠ [] ∨ next ≠ []

theorem indented_ne_nil {text : List Char} (h : text ≠ []) (depth : Nat) :
    indented depth text ≠ [] := by
  rw [indented_eq]
  simp [h]

/-- A piece of code that is no empty line begins and ends with a line that has text. -/
theorem ends_lines {c : Code} (htidy : c.Tidy) (h : c.isEmpty = false) (depth : Nat) :
    (∃ first rest, c.lines depth = first :: rest ∧ first ≠ []) ∧
      ∃ rest last, c.lines depth = rest ++ [last] ∧ last ≠ [] := by
  cases c with
  | blank => cases h
  | line text =>
    have hline := indented_ne_nil (ne_nil_of_beginsInside htidy.1) depth
    exact ⟨⟨_, [], by rw [lines], hline⟩, [], _, by rw [lines, List.nil_append], hline⟩
  | block head body tail =>
    have hfirst : indented depth (head.toList ++ ['{']) ≠ [] := indented_ne_nil (by simp) depth
    have hlast : indented depth ('}' :: tail.toList) ≠ [] := indented_ne_nil (by simp) depth
    refine ⟨⟨_, _, by rw [lines], hfirst⟩,
      indented depth (head.toList ++ ['{']) :: linesOfAll (depth + 1) body, _, ?_, hlast⟩
    rw [lines, List.cons_append]

theorem head?_linesOfAll {code : List Code} (htidy : TidyAll code)
    (h : ∀ c ∈ code.head?, c.isEmpty = false) (depth : Nat) :
    ∀ line ∈ (linesOfAll depth code).head?, line ≠ [] := by
  cases code with
  | nil => simp [linesOfAll]
  | cons c code =>
    obtain ⟨⟨first, rest, hlines, hfirst⟩, -⟩ := ends_lines htidy.1 (h c rfl) depth
    simp [linesOfAll, hlines, hfirst]

mutual

theorem isChain_lines : ∀ (c : Code) (depth : Nat), c.Tidy → c.Parted →
    (c.lines depth).IsChain NotBothEmpty
  | .line text, depth, _, _ => by
    rw [lines]
    exact .singleton _
  | .blank, depth, _, _ => by
    rw [lines]
    exact .singleton _
  | .block head body tail, depth, htidy, hparted => by
    obtain ⟨-, -, hbody, -, -⟩ := htidy
    have hfirst : indented depth (head.toList ++ ['{']) ≠ [] := indented_ne_nil (by simp) depth
    have hlast : indented depth ('}' :: tail.toList) ≠ [] := indented_ne_nil (by simp) depth
    rw [lines, List.isChain_cons]
    refine ⟨fun _ _ => .inl hfirst, ?_⟩
    rw [List.isChain_append]
    refine ⟨isChain_linesOfAll body (depth + 1) hbody hparted, .singleton _, ?_⟩
    intro _ _ next hnext
    obtain rfl := Option.some.inj hnext
    exact .inr hlast

theorem isChain_linesOfAll : ∀ (code : List Code) (depth : Nat), TidyAll code → PartedAll code →
    (linesOfAll depth code).IsChain NotBothEmpty
  | [], depth, _, _ => .nil
  | c :: rest, depth, htidy, hparted => by
    obtain ⟨hc, hrest⟩ := htidy
    obtain ⟨hcp, hrestp, hjoint⟩ := hparted
    rw [linesOfAll, List.isChain_append]
    refine ⟨isChain_lines c depth hc hcp, isChain_linesOfAll rest depth hrest hrestp, ?_⟩
    intro line hline next hnext
    rcases hjoint with hempty | hhead
    · obtain ⟨-, _, last, hlines, hlast⟩ := ends_lines hc hempty depth
      rw [hlines, List.getLast?_concat] at hline
      obtain rfl := Option.some.inj hline
      exact .inl hlast
    · exact .inr (head?_linesOfAll hrest hhead depth next hnext)

end

/-! ## The text of code -/

/-- Lines in blocks make a text in blocks, if the last one is not empty. -/
theorem blockStructured_ended {lines : List (List Char)} {last : List Char}
    (hone : ∀ line ∈ lines ++ [last], '\n' ∉ line) (hblocks : Blocks 0 (lines ++ [last]) 0)
    (hchain : (lines ++ [last]).IsChain NotBothEmpty) (hlast : last ≠ []) :
    BlockStructured (ended (lines ++ [last])) := by
  have hsplit := split_ended hone
  refine ⟨hblocks.scan_ended, ?_, ?_, ?_, ?_⟩
  · intro before line after hpieces hline
    rw [hsplit] at hpieces
    -- the empty piece behind the last line end is not the line in question
    rcases List.eq_nil_or_concat' after with rfl | ⟨after, piece, rfl⟩
    · obtain ⟨-, hnil⟩ := List.append_inj' hpieces rfl
      exact absurd (List.singleton_inj.mp hnil).symm hline
    · rw [← List.cons_append, ← List.append_assoc] at hpieces
      obtain ⟨hpieces, -⟩ := List.append_inj' hpieces rfl
      rw [hpieces] at hblocks
      exact hblocks.indent hline
  · intro line hmem c hc
    rw [hsplit, List.mem_append, List.mem_singleton] at hmem
    rcases hmem with hmem | rfl
    · have hne : line ≠ [] := by
        rintro rfl
        cases hc
      have hvisible := hblocks.visible line hmem hne
      rw [endsVisibly, hc] at hvisible
      simpa using hvisible
    · cases hc
  · rw [hsplit, List.isChain_append]
    refine ⟨hchain, .singleton _, ?_⟩
    intro line hline _ _
    rw [List.getLast?_concat] at hline
    obtain rfl := Option.some.inj hline
    exact .inl hlast
  · obtain ⟨init, c, rfl⟩ := (List.eq_nil_or_concat' last).resolve_left hlast
    have hc : '\n' ∉ init ++ [c] := hone _ (by simp)
    refine ⟨ended lines ++ init, c, ?_, ?_⟩
    · rintro rfl
      exact hc (by simp)
    · rw [ended_append]
      simp [ended]

/-- The text of tidy code is in blocks, if its last piece is no empty line. -/
theorem blockStructured_render {code : List Code} {last : Code}
    (hn : nestingOfAll code ≤ Indented.maxDepth) (hone : OneLinedAll code) (htidy : TidyAll code)
    (hparted : PartedAll code) (hlast : code.getLast? = some last) (hempty : last.isEmpty = false) :
    BlockStructured (render code).toList := by
  obtain ⟨init, rfl⟩ := List.getLast?_eq_some_iff.mp hlast
  obtain ⟨-, begun, line, hlines, hline⟩ :=
    ends_lines (tidyAll_iff.mp htidy last (by simp)) hempty 0
  have hall : linesOfAll 0 (init ++ [last]) = linesOfAll 0 init ++ begun ++ [line] := by
    rw [linesOfAll_append, linesOfAll, linesOfAll, hlines, List.append_nil, List.append_assoc]
  have hone' := OneLinedAll.not_mem_lines _ 0 hone
  have hblocks := blocks_linesOfAll _ 0 htidy
  have hchain := isChain_linesOfAll _ 0 htidy hparted
  rw [hall] at hone' hblocks hchain
  rw [toList_render hn, hall]
  exact blockStructured_ended hone' hblocks hchain hline

end Code

end ApiClient
