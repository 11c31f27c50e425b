import Mathlib.Tactic.Common
import ApiClient.Glob.Matching
import ApiClient.Proofs.Results

/-!
# What the paths of a pattern begin with

* `isPrefix_of_bytes`: bytes at the beginning of a text's bytes spell the beginning of the text;
* `IsPlain`, `readIn_plain`: characters that stand for themselves;
* `Reading.outermost`, `OpensStep`, `Reading.Behind`: what is never taken back of a pattern that is
  read behind a slash, with `readIn_behind`;
* `endsOfAll_append`, `mem_of_mem_endsOfAll_literals`: matching piece after piece;
* `isPrefix_of_accepts`: where plain characters up to a slash stand at the beginning of a pattern,
  they stand at the beginning of every path that it accepts.
-/

namespace ApiClient

/-! ## Bytes -/

namespace Text

theorem bytes_cons (c : Char) (s : List Char) :
    bytes (c :: s) = String.utf8EncodeChar c ++ bytes s := rfl

theorem bytes_append (s t : List Char) : bytes (s ++ t) = bytes s ++ bytes t :=
  List.flatMap_append

theorem eq_of_utf8EncodeChar_append {c d : Char} {s t : List UInt8}
    (h : String.utf8EncodeChar c ++ s = String.utf8EncodeChar d ++ t) : c = d := by
  have hdecode : ∀ (c : Char) (s : List UInt8),
      (String.utf8EncodeChar c ++ s).toByteArray.utf8DecodeChar? 0 = some c := fun c s => by
    rw [List.toByteArray_append, ByteArray.utf8DecodeChar?_utf8EncodeChar_append]
  exact Option.some.inj ((hdecode c s).symm.trans (h ▸ hdecode d t))

theorem isPrefix_of_bytes {s t : List Char} (h : bytes s <+: bytes t) : s <+: t := by
  induction s generalizing t with
  | nil => exact List.nil_prefix
  | cons c s ih =>
    cases t with
    | nil =>
      have hlength := h.length_le
      rw [bytes_cons, List.length_append, String.length_utf8EncodeChar] at hlength
      exact absurd (Nat.le_trans (Nat.le_add_right _ _) hlength)
        (Nat.not_le.mpr c.utf8Size_pos)
    | cons d t =>
      obtain ⟨more, hmore⟩ := h
      rw [bytes_cons, bytes_cons, List.append_assoc] at hmore
      obtain rfl := eq_of_utf8EncodeChar_append hmore
      exact List.cons_prefix_cons.mpr ⟨rfl, ih ⟨more, List.append_cancel_left hmore⟩⟩

end Text

namespace Glob

/-! ## Plain characters -/

namespace Pattern

/-- A character that stands for itself in a pattern, outside of choices and classes. -/
def IsPlain (c : Char) : Prop := c ∉ ['?', '*', '[', '\x7b', '\x7d', '\\']

instance : DecidablePred IsPlain := fun c =>
  inferInstanceAs (Decidable (c ∉ ['?', '*', '[', '\x7b', '\x7d', '\\']))

variable {r r' : Reading} {s : List Char} {base : Branch}

theorem readIn_plain_cons {c : Char} (h : IsPlain c) (hr : r.choices = []) (rounds : Nat)
    (s : List Char) :
    readIn (rounds + 1) r (c :: s) =
      readIn rounds ({ r with last? := some c }.push (.literal c)) s := by
  simp only [IsPlain, List.mem_cons, List.not_mem_nil, or_false, not_or] at h
  obtain ⟨h₁, h₂, h₃, h₄, h₅, h₆⟩ := h
  rw [readIn.eq_def]
  simp only [h₁, h₂, h₃, h₄, h₅, h₆, if_false]
  split_ifs with hcomma
  · rw [Reading.comma, hr, hcomma]
  · rfl

/-- Plain characters are read as themselves. -/
theorem readIn_plain (h : ∀ c ∈ s, IsPlain c) (hr : r.choices = []) (rounds : Nat)
    (rest : List Char) :
    ∃ r' : Reading, r'.choices = [] ∧ r'.current = (s.map .literal).reverse ++ r.current ∧
      readIn (s.length + rounds) r (s ++ rest) = readIn rounds r' rest := by
  induction s generalizing r with
  | nil => exact ⟨r, hr, rfl, by rw [List.length_nil, Nat.zero_add, List.nil_append]⟩
  | cons c s ih =>
    obtain ⟨hc, hs⟩ := List.forall_mem_cons.mp h
    obtain ⟨r', hchoices, hcurrent, hread⟩ := ih hs
      (r := { r with last? := some c }.push (.literal c)) hr
    refine ⟨r', hchoices, ?_, ?_⟩
    · rw [hcurrent, List.map_cons, List.reverse_cons, List.append_assoc]
      rfl
    · rw [List.length_cons, Nat.add_right_comm, List.cons_append, readIn_plain_cons hc hr, hread]

/-! ## Behind a slash -/

/-- The branch around all choices, as far as it has been read. -/
def Reading.outermost (r : Reading) : Branch := (r.choices.map Choice.around).getLastD r.current

/-- A piece that matches nothing but what begins with a slash. -/
inductive OpensStep : Piece → Prop
  | slash : OpensStep (.literal '/')
  | inner : OpensStep .inner
  | trailing : OpensStep .trailing

/-- A branch that goes on with a slash behind `base`. -/
def GoesOn (base branch : Branch) : Prop :=
  ∃ later first, OpensStep first ∧ branch = later ++ first :: base

/-- A pattern that has been read beyond `base` and a slash. -/
def Reading.Behind (base : Branch) (r : Reading) : Prop := GoesOn base r.outermost

theorem GoesOn.cons {branch : Branch} (h : GoesOn base branch) (piece : Piece) :
    GoesOn base (piece :: branch) := by
  obtain ⟨later, first, hfirst, rfl⟩ := h
  exact ⟨piece :: later, first, hfirst, rfl⟩

theorem Reading.Behind.push (h : r.Behind base) (piece : Piece) : (r.push piece).Behind base := by
  obtain ⟨choices, current, last?⟩ := r
  cases choices with
  | nil => exact GoesOn.cons h piece
  | cons choice choices => exact h

theorem Reading.Behind.openChoice (h : r.Behind base) : r.openChoice.Behind base := by
  rw [Reading.Behind, Reading.outermost, Reading.openChoice, List.map_cons, List.getLastD_cons]
  exact h

theorem Reading.Behind.comma (h : r.Behind base) : r.comma.Behind base := by
  obtain ⟨choices, current, last?⟩ := r
  cases choices with
  | nil => exact GoesOn.cons h _
  | cons choice choices => exact h

theorem Reading.Behind.closeChoice (h : r.Behind base) (hr : r.closeChoice = .ok r') :
    r'.Behind base := by
  obtain ⟨choices, current, last?⟩ := r
  cases choices with
  | nil => cases hr
  | cons choice choices =>
    cases hr
    cases choices with
    | nil => exact GoesOn.cons h _
    | cons choice choices => exact h

/-- The slash before two stars gives way to a piece that begins with one. -/
theorem Reading.Behind.steps (h : r.Behind base) {piece : Piece} (hpiece : OpensStep piece) :
    (r.steps piece).Behind base := by
  obtain ⟨choices, current, last?⟩ := r
  cases choices with
  | nil =>
    obtain ⟨later, first, hfirst, hcurrent⟩ := h
    obtain rfl : current = later ++ first :: base := hcurrent
    cases later with
    | nil =>
      -- the slash itself gives way, and only to a piece that begins with one
      cases hfirst with
      | trailing => exact ⟨[], .trailing, .trailing, rfl⟩
      | _ => exact ⟨[], piece, hpiece, rfl⟩
    | cons p later =>
      have hreplaced : ∀ p, GoesOn base (p :: (later ++ first :: base)) :=
        fun p => ⟨p :: later, first, hfirst, rfl⟩
      cases p <;> exact hreplaced _
  | cons choice choices =>
    rw [Reading.steps]
    split <;> exact h

theorem Reading.Behind.stars (h : r.Behind base) (s : List Char) : (r.stars s).1.Behind base := by
  have hplain : Reading.Behind base { (r.push .many).push .many with last? := some '*' } :=
    (h.push .many).push .many
  unfold Reading.stars
  dsimp only
  split_ifs with hempty hstep
  · split
    · exact h.push .leading
    · split_ifs
      · exact h.push .leading
      · exact hplain
  · exact hplain
  · split
    · exact h.steps .trailing
    · split_ifs
      · exact h.steps .inner
      · exact h.steps .trailing
      · exact hplain

/-- What has been read up to a slash is never taken back. -/
theorem readIn_behind {rounds : Nat} (h : r.Behind base) (hr : readIn rounds r s = .ok r') :
    r'.Behind base := by
  induction rounds generalizing r s with
  | zero =>
    cases hr
    exact h
  | succ rounds ih =>
    cases s with
    | nil =>
      cases hr
      exact h
    | cons c s =>
      have hlast : ∀ last?, Reading.Behind base { r with last? := last? } := fun _ => h
      rw [readIn.eq_def] at hr
      dsimp only at hr
      split_ifs at hr
      · exact ih ((hlast _).push .any) hr
      · split at hr
        · exact ih (h.stars _) hr
        · exact ih ((hlast _).push .many) hr
      · obtain ⟨content, _, hcontent⟩ := bind_eq_ok_iff.mp hr
        exact ih ((hlast _).push _) hcontent
      · exact ih (hlast _).openChoice hr
      · obtain ⟨closed, hclosed, hr⟩ := bind_eq_ok_iff.mp hr
        exact ih ((hlast _).closeChoice hclosed) hr
      · exact ih (hlast _).comma hr
      · split at hr
        · cases hr
        · exact ih ((hlast _).push _) hr
      · exact ih ((hlast _).push _) hr

end Pattern

/-! ## Matching -/

theorem eq_append_of_mem_afterBytes {head s rest : List UInt8} (h : rest ∈ afterBytes head s) :
    s = head ++ rest := by
  rw [afterBytes] at h
  split_ifs at h with hprefix
  · obtain ⟨more, rfl⟩ := List.isPrefixOf_iff_prefix.mp hprefix
    obtain rfl := List.mem_singleton.mp h
    rw [List.drop_left]
  · cases h

theorem endsOfAll_append (pieces more : List Piece) (starts : List (List UInt8)) :
    endsOfAll (pieces ++ more) starts = endsOfAll more (endsOfAll pieces starts) := by
  induction pieces generalizing starts with
  | nil => rfl
  | cons piece pieces ih => rw [List.cons_append, endsOfAll, ih, endsOfAll]

theorem endsOfAll_nil (pieces : List Piece) : endsOfAll pieces [] = [] := by
  induction pieces with
  | nil => rfl
  | cons piece pieces ih => rw [endsOfAll, List.flatMap_nil, List.eraseDups_nil, ih]

theorem mem_of_mem_endsOfAll_literals {s : List Char} {starts : List (List UInt8)}
    {rest : List UInt8} (h : rest ∈ endsOfAll (s.map .literal) starts) :
    Text.bytes s ++ rest ∈ starts := by
  induction s generalizing starts with
  | nil => exact h
  | cons c s ih =>
    rw [List.map_cons, endsOfAll] at h
    obtain ⟨start, hstart, hrest⟩ := List.mem_flatMap.mp (List.mem_eraseDups.mp (ih h))
    have hbytes : start = charBytes c ++ (Text.bytes s ++ rest) := eq_append_of_mem_afterBytes hrest
    rwa [hbytes, charBytes, ← List.append_assoc, ← Text.bytes_append] at hstart

theorem exists_cons_of_opensStep {first : Piece} (h : Pattern.OpensStep first)
    {s rest : List UInt8} (hrest : rest ∈ first.ends s) : ∃ more, s = slash :: more := by
  cases h with
  | slash => exact ⟨rest, eq_append_of_mem_afterBytes hrest⟩
  | _ =>
    cases s with
    | nil => cases hrest
    | cons b s =>
      rw [Piece.ends] at hrest
      split_ifs at hrest with hb
      · exact ⟨s, by rw [hb]⟩
      · cases hrest

theorem exists_mem_of_accepts {pieces : List Piece} {path : String} (hne : pieces ≠ [.leading])
    (h : accepts pieces path = true) :
    ∃ rest, rest ∈ endsOfAll pieces [Text.bytes path.toList] := by
  unfold accepts at h
  split at h
  · exact absurd rfl hne
  · obtain ⟨rest, hrest, -⟩ := List.any_eq_true.mp h
    exact ⟨rest, hrest⟩

/-- What pieces accept begins with the literals in front and the slash behind them. -/
theorem isPrefix_of_goesOn {s : List Char} {branch : Pattern.Branch}
    (h : Pattern.GoesOn (s.map .literal).reverse branch) {path : String}
    (haccepts : accepts branch.reverse path = true) : s ++ ['/'] <+: path.toList := by
  obtain ⟨later, first, hfirst, rfl⟩ := h
  have hpieces : (later ++ first :: (s.map Piece.literal).reverse).reverse =
      s.map .literal ++ first :: later.reverse := by
    rw [List.reverse_append, List.reverse_cons, List.reverse_reverse, List.append_assoc,
      List.singleton_append]
  have hne : s.map .literal ++ first :: later.reverse ≠ [.leading] := by
    intro he
    have hmem : first ∈ [Piece.leading] := he ▸ List.mem_append_right _ List.mem_cons_self
    obtain rfl := List.mem_singleton.mp hmem
    cases hfirst
  rw [hpieces] at haccepts
  obtain ⟨rest, hrest⟩ := exists_mem_of_accepts hne haccepts
  -- nothing is left behind no starts, so something has been left behind the first step
  rw [endsOfAll_append, endsOfAll] at hrest
  obtain ⟨start, hstart⟩ := List.exists_mem_of_ne_nil
    ((endsOfAll (s.map .literal) [Text.bytes path.toList]).flatMap first.ends).eraseDups
    fun hnil => by
      rw [hnil, endsOfAll_nil] at hrest
      cases hrest
  obtain ⟨behind, hbehind, hstart⟩ := List.mem_flatMap.mp (List.mem_eraseDups.mp hstart)
  obtain ⟨more, rfl⟩ := exists_cons_of_opensStep hfirst hstart
  have hbytes := List.mem_singleton.mp (mem_of_mem_endsOfAll_literals hbehind)
  refine Text.isPrefix_of_bytes ⟨more, ?_⟩
  rw [← hbytes, Text.bytes_append, List.append_assoc]
  rfl

/-- Where a pattern begins with plain characters and a slash, so does every path that it accepts. -/
theorem isPrefix_of_accepts {s rest : List Char} (h : ∀ c ∈ s, Pattern.IsPlain c)
    {pieces : List Piece}
    (hpieces : Pattern.compile (String.ofList (s ++ '/' :: rest)) = .ok pieces)
    {path : String} (haccepts : accepts pieces path = true) : s ++ ['/'] <+: path.toList := by
  have hslash : ∀ c ∈ s ++ ['/'], Pattern.IsPlain c :=
    List.forall_mem_append.mpr ⟨h, List.forall_mem_singleton.mpr (by decide)⟩
  obtain ⟨r, hchoices, hcurrent, hread⟩ :=
    Pattern.readIn_plain (r := {}) hslash rfl rest.length rest
  have hbehind : r.Behind (s.map .literal).reverse := by
    refine ⟨[], .literal '/', .slash, ?_⟩
    rw [Pattern.Reading.outermost, hchoices, hcurrent, List.map_append, List.reverse_append,
      List.append_nil]
    rfl
  have hlength : (String.ofList (s ++ '/' :: rest)).length = (s ++ ['/']).length + rest.length := by
    rw [String.length_ofList, List.append_cons, List.length_append]
  rw [Pattern.compile, String.toList_ofList, hlength, List.append_cons s '/' rest, hread] at hpieces
  obtain ⟨r', hr', hpieces⟩ := bind_eq_ok_iff.mp hpieces
  split_ifs at hpieces with hclosed
  have hgoes := Pattern.readIn_behind hbehind hr'
  rw [Pattern.Reading.Behind, Pattern.Reading.outermost, List.isEmpty_iff.mp hclosed] at hgoes
  cases hpieces
  exact isPrefix_of_goesOn hgoes haccepts

end Glob

end ApiClient
