import ApiClient.Endpoint.Template
import ApiClient.Proofs.Results
import ApiClient.Proofs.Text.Trim

/-!
# Path templates and their pieces

* `Segment.IsPlain`: the pieces that templates can be put together from;
* `Segment.KeepsText`: ways to write pieces that leave literal text as it is;
* `Segment.atoms`: literal text character by character;
* `isPlain_of_segments`, `print_of_segments`: the pieces of a template are plain and spell it;
* `exists_segments_print`: what plain pieces spell is a template, and its pieces are the same but
  for the borders between literal texts;
* `slashed`: pieces with slashes between them;
* `exists_segments_trimmed`: slashes can be taken off a template before its placeholders are
  replaced or afterwards.
-/

namespace ApiClient

namespace Segment

/-- Literal text opens no brace, and a name is there and has no brace. -/
def IsPlain : Segment → Prop
  | .literal content => '{' ∉ content.toList
  | .placeholder name => name ≠ "" ∧ '{' ∉ name.toList ∧ '}' ∉ name.toList

/-- Writing pieces so that literal text stands for itself. -/
def KeepsText (write : Segment → List Char) : Prop :=
  ∀ content, write (.literal content) = content.toList

theorem keepsText_print : KeepsText print := fun _ => rfl

/-- A piece with its literal text character by character. -/
def atoms : Segment → List Segment
  | .literal content => content.toList.map fun c => .literal (String.singleton c)
  | .placeholder name => [.placeholder name]

theorem flatMap_atoms {write : Segment → List Char} (h : KeepsText write) (piece : Segment) :
    piece.atoms.flatMap write = write piece := by
  cases piece with
  | literal content => simp [atoms, h _, List.flatMap_map]
  | placeholder name => simp [atoms]

theorem isPlain_of_mem_atoms {piece atom : Segment} (h : piece.IsPlain) (ha : atom ∈ piece.atoms) :
    atom.IsPlain := by
  cases piece with
  | literal content =>
    obtain ⟨c, hc, rfl⟩ := List.mem_map.mp ha
    rw [IsPlain, String.toList_singleton, List.mem_singleton]
    exact fun he => h (he ▸ hc)
  | placeholder name => exact List.mem_singleton.mp ha ▸ h

theorem filterMap_atoms (piece : Segment) : piece.atoms.filterMap name? = piece.name?.toList := by
  cases piece with
  | literal content => simp [atoms, name?]
  | placeholder name => simp [atoms, name?]

end Segment

namespace Template

open Segment

/-! ## Literal text -/

theorem isPlain_literal {content : List Char} (h : '{' ∉ content) :
    ∀ piece ∈ literal content, piece.IsPlain := by
  intro piece hp
  unfold literal at hp
  split at hp
  · cases hp
  · rw [List.mem_singleton.mp hp, IsPlain, String.toList_ofList]
    exact h

theorem flatMap_literal {write : Segment → List Char} (h : KeepsText write) (content : List Char) :
    (literal content).flatMap write = content := by
  cases content with
  | nil => rfl
  | cons c content => simp [literal, h _]

theorem filterMap_literal (content : List Char) : (literal content).filterMap name? = [] := by
  cases content with
  | nil => rfl
  | cons c content => simp [literal, name?]

/-! ## What is read is spelled -/

/-- The part of a template that has been read but is no piece yet. -/
def unread : Option (List Char) → List Char → List Char
  | none, content => content
  | some name, _ => '{' :: name

theorem scan_sound {name? : Option (List Char)} {content s : List Char} {pieces : List Segment}
    (h : scan name? content s = .ok pieces) (hc : '{' ∉ content)
    (hn : ∀ name ∈ name?, '}' ∉ name) :
    (∀ piece ∈ pieces, piece.IsPlain) ∧
      pieces.flatMap Segment.print = unread name? content ++ s := by
  fun_induction scan name? content s generalizing pieces with
  | case1 => cases h
  | case2 name? content hnone =>
    obtain rfl := Except.ok.inj h
    obtain rfl : name? = none := by simpa using hnone
    exact ⟨isPlain_literal hc, by simp [flatMap_literal keepsText_print, unread]⟩
  | case3 content rest ih =>
    obtain ⟨more, hmore, rfl⟩ := map_eq_ok_iff.mp h
    obtain ⟨hplain, hprint⟩ := ih hmore List.not_mem_nil (by simp)
    refine ⟨List.forall_mem_append.mpr ⟨isPlain_literal hc, hplain⟩, ?_⟩
    rw [List.flatMap_append, flatMap_literal keepsText_print, hprint]
    rfl
  | case4 content c rest hne ih =>
    obtain ⟨hplain, hprint⟩ := ih h (by simp [hc, Ne.symm hne]) (by simp)
    refine ⟨hplain, ?_⟩
    rw [hprint]
    simp [unread]
  | case5 => cases h
  | case6 content rest name hname ih =>
    obtain ⟨more, hmore, rfl⟩ := map_eq_ok_iff.mp h
    obtain ⟨hplain, hprint⟩ := ih hmore List.not_mem_nil (by simp)
    simp only [Bool.or_eq_true, List.isEmpty_iff, List.contains_iff_mem, not_or] at hname
    refine ⟨List.forall_mem_cons.mpr ⟨⟨?_, ?_, ?_⟩, hplain⟩, ?_⟩
    · simpa [String.ext_iff] using hname.1
    · simpa using hname.2
    · simpa using hn name rfl
    · rw [List.flatMap_cons, hprint]
      simp [Segment.print, unread]
  | case7 content c rest name hne ih =>
    obtain ⟨hplain, hprint⟩ := ih h List.not_mem_nil (by simpa [Ne.symm hne] using hn)
    refine ⟨hplain, ?_⟩
    rw [hprint]
    simp [unread]

theorem isPlain_of_segments {template : String} {pieces : List Segment}
    (h : segments template = .ok pieces) : ∀ piece ∈ pieces, piece.IsPlain :=
  (scan_sound h List.not_mem_nil (by simp)).1

theorem print_of_segments {template : String} {pieces : List Segment}
    (h : segments template = .ok pieces) : pieces.flatMap Segment.print = template.toList :=
  (scan_sound h List.not_mem_nil (by simp)).2

/-! ## What is spelled is read -/

theorem scan_text {s : List Char} (h : '{' ∉ s) (content rest : List Char) :
    scan none content (s ++ rest) = scan none (content ++ s) rest := by
  induction s generalizing content with
  | nil => simp
  | cons c s ih =>
    rw [List.mem_cons, not_or] at h
    rw [List.cons_append, scan]
    simp [Ne.symm h.1, ih h.2]

theorem scan_inside {s : List Char} (h : '}' ∉ s) (name rest : List Char) :
    scan (some name) [] (s ++ '}' :: rest) = scan (some (name ++ s)) [] ('}' :: rest) := by
  induction s generalizing name with
  | nil => rw [List.nil_append, List.append_nil]
  | cons c s ih =>
    rw [List.mem_cons, not_or] at h
    rw [List.cons_append, scan]
    simp only [Ne.symm h.1, if_false]
    rw [ih h.2, List.append_assoc, List.singleton_append]

theorem scan_name {name : List Char} (hclose : '}' ∉ name) (hne : name ≠ []) (hopen : '{' ∉ name)
    (rest : List Char) :
    scan (some []) [] (name ++ '}' :: rest) =
      (.placeholder (String.ofList name) :: ·) <$> scan none [] rest := by
  rw [scan_inside hclose, List.nil_append, scan]
  simp [hne, hopen]

/-- Reading what plain pieces spell, behind literal text that has been read. -/
theorem exists_scan_print {pieces : List Segment} (h : ∀ piece ∈ pieces, piece.IsPlain)
    (content : List Char) :
    ∃ found, scan none content (pieces.flatMap Segment.print) = .ok found ∧
      found.filterMap name? = pieces.filterMap name? ∧
      ∀ write, KeepsText write → found.flatMap write = content ++ pieces.flatMap write := by
  induction pieces generalizing content with
  | nil =>
    refine ⟨literal content, rfl, filterMap_literal content, fun write hwrite => ?_⟩
    rw [flatMap_literal hwrite, List.flatMap_nil, List.append_nil]
  | cons piece pieces ih =>
    rw [List.forall_mem_cons] at h
    cases piece with
    | literal text =>
      obtain ⟨found, hfound, hnames, hwritten⟩ := ih h.2 (content ++ text.toList)
      refine ⟨found, ?_, hnames, fun write hwrite => ?_⟩
      · rw [List.flatMap_cons, Segment.print, scan_text h.1, hfound]
      · rw [hwritten write hwrite, List.flatMap_cons, hwrite text, List.append_assoc]
    | placeholder name =>
      obtain ⟨hne, hopen, hclose⟩ := h.1
      obtain ⟨found, hfound, hnames, hwritten⟩ := ih h.2 []
      have hname : scan (some []) [] (name.toList ++ '}' :: pieces.flatMap Segment.print) =
          .ok (.placeholder name :: found) := by
        rw [scan_name hclose (by rwa [ne_eq, String.toList_eq_nil_iff]) hopen, hfound,
          String.ofList_toList]
        rfl
      refine ⟨literal content ++ .placeholder name :: found, ?_, ?_, fun write hwrite => ?_⟩
      · rw [List.flatMap_cons, Segment.print, List.cons_append, List.append_assoc,
          List.singleton_append, scan]
        simp only [if_true]
        rw [hname]
        rfl
      · rw [List.filterMap_append, filterMap_literal, List.filterMap_cons, List.filterMap_cons,
          hnames]
        rfl
      · rw [List.flatMap_append, flatMap_literal hwrite, List.flatMap_cons, List.flatMap_cons,
          hwritten write hwrite]
        rfl

theorem exists_segments_print {pieces : List Segment} (h : ∀ piece ∈ pieces, piece.IsPlain) :
    ∃ found, segments (String.ofList (pieces.flatMap Segment.print)) = .ok found ∧
      found.filterMap name? = pieces.filterMap name? ∧
      ∀ write, KeepsText write → found.flatMap write = pieces.flatMap write := by
  rw [segments, String.toList_ofList]
  exact exists_scan_print h []

/-! ## Pieces with slashes between them -/

/-- Pieces with a slash between each two. -/
def slashed (pieces : List Segment) : List Segment := pieces.intersperse (.literal "/")

theorem slashed_cons_cons (piece next : Segment) (pieces : List Segment) :
    slashed (piece :: next :: pieces) = piece :: .literal "/" :: slashed (next :: pieces) :=
  List.intersperse_cons_cons

theorem isPlain_slashed {pieces : List Segment} (h : ∀ piece ∈ pieces, piece.IsPlain) :
    ∀ piece ∈ slashed pieces, piece.IsPlain := by
  induction pieces with
  | nil => exact h
  | cons piece pieces ih =>
    cases pieces with
    | nil => exact h
    | cons next pieces =>
      rw [List.forall_mem_cons] at h
      rw [slashed_cons_cons, List.forall_mem_cons, List.forall_mem_cons]
      exact ⟨h.1, by simp [IsPlain], ih h.2⟩

theorem filterMap_slashed (pieces : List Segment) :
    (slashed pieces).filterMap name? = pieces.filterMap name? := by
  induction pieces with
  | nil => rfl
  | cons piece pieces ih =>
    cases pieces with
    | nil => rfl
    | cons next pieces =>
      rw [slashed_cons_cons, List.filterMap_cons, List.filterMap_cons, ih, List.filterMap_cons]
      rfl

theorem flatMap_slashed {write : Segment → List Char} (h : KeepsText write)
    (pieces : List Segment) :
    (slashed pieces).flatMap write = ['/'].intercalate (pieces.map write) := by
  induction pieces with
  | nil => rfl
  | cons piece pieces ih =>
    cases pieces with
    | nil => simp [slashed]
    | cons next pieces =>
      rw [slashed_cons_cons, List.flatMap_cons, List.flatMap_cons, ih, h]
      simp only [List.map_cons, List.intercalate_cons_cons, List.append_assoc]
      rfl

/-! ## Slashes at the ends -/

/-- A text with other characters than slashes at both ends. -/
def EndsSolid (s : List Char) : Prop :=
  (∃ c, s.head? = some c ∧ (c == '/') = false) ∧ ∃ c, s.getLast? = some c ∧ (c == '/') = false

theorem endsSolid_of_not_mem {s : List Char} (hne : s ≠ []) (h : '/' ∉ s) : EndsSolid s := by
  have hother : ∀ c ∈ s, (c == '/') = false := by
    intro c hc
    rw [beq_eq_false_iff_ne]
    exact fun he => h (he ▸ hc)
  refine ⟨⟨s.head hne, List.head?_eq_some_head hne, hother _ (List.head_mem hne)⟩, ?_⟩
  exact ⟨s.getLast hne, List.getLast?_eq_some_getLast hne, hother _ (List.getLast_mem hne)⟩

theorem endsSolid_print (name : String) : EndsSolid (Segment.placeholder name).print :=
  ⟨⟨'{', rfl, rfl⟩, '}', List.getLast?_concat (l := '{' :: name.toList), rfl⟩

/-- Whether a piece is a slash. -/
def isSlash (piece : Segment) : Bool := piece == .literal "/"

/-- The atoms of pieces without the slashes at both ends. -/
def trimmed (pieces : List Segment) : List Segment :=
  ((pieces.flatMap atoms).dropWhile isSlash).rdropWhile isSlash

theorem trimmed_sublist (pieces : List Segment) : (trimmed pieces).Sublist (pieces.flatMap atoms) :=
  (List.rdropWhile_prefix _ _).sublist.trans (List.dropWhile_sublist _)

theorem filterMap_flatMap_atoms (pieces : List Segment) :
    (pieces.flatMap atoms).filterMap name? = pieces.filterMap name? := by
  induction pieces with
  | nil => rfl
  | cons piece pieces ih =>
    rw [List.flatMap_cons, List.filterMap_append, filterMap_atoms, ih, List.filterMap_cons]
    cases piece.name? <;> rfl

/-- An atom is a slash, or other text of one character, or a placeholder. -/
theorem atom_cases {pieces : List Segment} {atom : Segment} (h : atom ∈ pieces.flatMap atoms) :
    (∃ c, atom = .literal (String.singleton c)) ∨
      ∃ name ∈ pieces.filterMap name?, atom = .placeholder name := by
  obtain ⟨piece, hp, ha⟩ := List.mem_flatMap.mp h
  cases piece with
  | literal content =>
    obtain ⟨c, -, rfl⟩ := List.mem_map.mp ha
    exact .inl ⟨c, rfl⟩
  | placeholder name =>
    obtain rfl := List.mem_singleton.mp ha
    exact .inr ⟨name, List.mem_filterMap.mpr ⟨_, hp, rfl⟩, rfl⟩

theorem strip_flatMap_pieces {pieces : List Segment} {write : Segment → List Char}
    (hwrite : KeepsText write)
    (hsolid : ∀ name ∈ pieces.filterMap name?, EndsSolid (write (.placeholder name))) :
    Text.stripSlashes (pieces.flatMap write) = (trimmed pieces).flatMap write := by
  have hslash : ∀ atom ∈ pieces.flatMap atoms, isSlash atom = true →
      ∀ c ∈ write atom, (c == '/') = true := by
    intro atom _ hq c hc
    rw [beq_iff_eq.mp hq, hwrite] at hc
    rw [List.mem_singleton.mp hc]
    rfl
  have hother : ∀ atom ∈ pieces.flatMap atoms, isSlash atom = false → EndsSolid (write atom) := by
    intro atom ha hq
    obtain ⟨c, rfl⟩ | ⟨name, hname, rfl⟩ := atom_cases ha
    · rw [hwrite, String.toList_singleton]
      refine endsSolid_of_not_mem (List.cons_ne_nil c []) fun hc => ?_
      rw [← List.mem_singleton.mp hc] at hq
      cases hq
    · exact hsolid name hname
  have hatoms : (pieces.flatMap atoms).flatMap write = pieces.flatMap write := by
    rw [List.flatMap_assoc]
    exact congrArg (List.flatMap · pieces) (funext (flatMap_atoms hwrite))
  rw [← hatoms]
  exact Text.strip_flatMap hslash (fun a ha hq => (hother a ha hq).1)
    fun a ha hq => (hother a ha hq).2

/-- A template without the slashes at its ends is a template, and its path is that of the whole
template without the slashes at its ends. -/
theorem exists_segments_trimmed {template : String} {pieces : List Segment}
    (h : segments template = .ok pieces) :
    ∃ found, segments (String.ofList (Text.stripSlashes template.toList)) = .ok found ∧
      (found.filterMap name?).Sublist (pieces.filterMap name?) ∧
      ∀ write, KeepsText write →
        (∀ name ∈ pieces.filterMap name?, EndsSolid (write (.placeholder name))) →
        Text.stripSlashes (pieces.flatMap write) = found.flatMap write := by
  have hplain : ∀ piece ∈ trimmed pieces, piece.IsPlain := by
    intro atom ha
    obtain ⟨piece, hp, ha⟩ := List.mem_flatMap.mp ((trimmed_sublist pieces).mem ha)
    exact isPlain_of_mem_atoms (isPlain_of_segments h piece hp) ha
  obtain ⟨found, hfound, hnames, hwritten⟩ := exists_segments_print hplain
  refine ⟨found, ?_, ?_, fun write hwrite hsolid => ?_⟩
  · rw [← print_of_segments h,
      strip_flatMap_pieces keepsText_print fun name _ => endsSolid_print name]
    exact hfound
  · rw [hnames, ← filterMap_flatMap_atoms pieces]
    exact (trimmed_sublist pieces).filterMap name?
  · rw [hwritten write hwrite, strip_flatMap_pieces hwrite hsolid]

end Template

end ApiClient
