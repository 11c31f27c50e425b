import Mathlib.Tactic.Common
import ApiClient.Proofs.Text.Quoted

/-!
# Braces outside of literals

* `Place`, `next`, `scan`: a reader of source text that counts the open braces and passes over
  literals;
* `Place.below`, `scan_below`: a text that is balanced by itself is balanced inside of other blocks;
* `Balanced`: texts that open and close the same braces and end outside of a literal;
* `balanced_quoteChars`: a literal is such a text, whatever it holds;
* `balanced_intercalate`, `balanced_of_not_mem`: joined texts, and texts without braces and quotes.
-/

namespace ApiClient.Text.Braces

/-- Where a reader of source text stands: in code, in a literal, or behind a backslash in a literal.
All around are so many open braces. -/
inductive Place where
  | code (depth : Nat)
  | literal (depth : Nat)
  | escape (depth : Nat)
  deriving DecidableEq, Repr

/-- The place behind a character. There is none behind a brace that closes nothing. -/
def next : Place → Char → Option Place
  | .code depth, c =>
    if c = '"' then some (.literal depth)
    else if c = '{' then some (.code (depth + 1))
    else if c = '}' then
      match depth with
      | 0 => none
      | depth + 1 => some (.code depth)
    else some (.code depth)
  | .literal depth, c =>
    if c = '"' then some (.code depth)
    else if c = '\\' then some (.escape depth)
    else some (.literal depth)
  | .escape depth, _ => some (.literal depth)

/-- The place behind a text, if every brace in it that closes something has something to close. -/
def scan : Place → List Char → Option Place
  | place, [] => some place
  | place, c :: rest => (next place c).bind (scan · rest)

theorem scan_append (place : Place) (s t : List Char) :
    scan place (s ++ t) = (scan place s).bind (scan · t) := by
  induction s generalizing place with
  | nil => rfl
  | cons c s ih =>
    rw [List.cons_append, scan, scan, Option.bind_assoc]
    exact congrArg _ (funext fun place => ih place)

/-! ## Inside of other blocks -/

/-- The same place with `outer` braces more around it. -/
def Place.below (outer : Nat) : Place → Place
  | .code depth => .code (outer + depth)
  | .literal depth => .literal (outer + depth)
  | .escape depth => .escape (outer + depth)

theorem next_below (outer : Nat) {place place' : Place} {c : Char}
    (h : next place c = some place') : next (place.below outer) c = some (place'.below outer) := by
  cases place with
  | code depth =>
    simp only [next, Place.below] at h ⊢
    split_ifs at h ⊢ with hquote hopen hclose
    · obtain rfl := Option.some.inj h
      rfl
    · obtain rfl := Option.some.inj h
      rfl
    · cases depth with
      | zero => cases h
      | succ depth =>
        obtain rfl := Option.some.inj h
        rfl
    · obtain rfl := Option.some.inj h
      rfl
  | literal depth =>
    simp only [next, Place.below] at h ⊢
    split_ifs at h ⊢
    all_goals
      obtain rfl := Option.some.inj h
      rfl
  | escape depth =>
    obtain rfl := Option.some.inj h
    rfl

theorem scan_below (outer : Nat) {place place' : Place} {s : List Char}
    (h : scan place s = some place') : scan (place.below outer) s = some (place'.below outer) := by
  induction s generalizing place with
  | nil =>
    obtain rfl := Option.some.inj h
    rfl
  | cons c s ih =>
    rw [scan, Option.bind_eq_some_iff] at h
    obtain ⟨middle, hnext, hscan⟩ := h
    rw [scan, next_below outer hnext, Option.bind_some, ih hscan]

/-! ## Balanced texts -/

/-- A text that closes the braces that it opens, and no others, and ends outside of a literal. -/
def Balanced (s : List Char) : Prop := ∀ depth, scan (.code depth) s = some (.code depth)

theorem balanced_of_scan {s : List Char} (h : scan (.code 0) s = some (.code 0)) : Balanced s :=
  fun depth => scan_below depth h

theorem Balanced.append {s t : List Char} (hs : Balanced s) (ht : Balanced t) :
    Balanced (s ++ t) := by
  intro depth
  rw [scan_append, hs depth, Option.bind_some, ht depth]

/-- A balanced text between two that are balanced together. -/
theorem Balanced.between {s before after : List Char} (depth : Nat) (hs : Balanced s)
    (hbefore : scan (.code 0) before = some (.code depth))
    (hafter : scan (.code depth) after = some (.code 0)) : Balanced (before ++ s ++ after) := by
  apply balanced_of_scan
  rw [scan_append, scan_append, hbefore, Option.bind_some, hs depth, Option.bind_some, hafter]

theorem balanced_of_not_mem {s : List Char} (hquote : '"' ∉ s) (hopen : '{' ∉ s)
    (hclose : '}' ∉ s) : Balanced s := by
  intro depth
  induction s with
  | nil => rfl
  | cons c s ih =>
    simp only [List.mem_cons, not_or] at hquote hopen hclose
    have hnext : next (.code depth) c = some (.code depth) := by
      simp [next, Ne.symm hquote.1, Ne.symm hopen.1, Ne.symm hclose.1]
    rw [scan, hnext, Option.bind_some, ih hquote.2 hopen.2 hclose.2]

theorem balanced_intercalate {between : List Char} {pieces : List (List Char)}
    (hbetween : Balanced between) (hpieces : ∀ piece ∈ pieces, Balanced piece) :
    Balanced (between.intercalate pieces) := by
  induction pieces with
  | nil => exact fun _ => rfl
  | cons piece pieces ih =>
    obtain ⟨hpiece, hpieces⟩ := List.forall_mem_cons.mp hpieces
    cases pieces with
    | nil => simpa using hpiece
    | cons following pieces =>
      rw [List.intercalate_cons_cons]
      exact (hpiece.append hbetween).append (ih hpieces)

/-! ## Literals -/

theorem scan_literal_of_not_mem {s : List Char} (hquote : '"' ∉ s) (hback : '\\' ∉ s)
    (depth : Nat) : scan (.literal depth) s = some (.literal depth) := by
  induction s with
  | nil => rfl
  | cons c s ih =>
    simp only [List.mem_cons, not_or] at hquote hback
    have hnext : next (.literal depth) c = some (.literal depth) := by
      rw [next, if_neg (Ne.symm hquote.1), if_neg (Ne.symm hback.1)]
    rw [scan, hnext, Option.bind_some, ih hquote.2 hback.2]

/-- An escaped character leaves a reader in its literal. -/
theorem scan_escape (c : Char) (depth : Nat) :
    scan (.literal depth) (Quoted.escape c) = some (.literal depth) := by
  unfold Quoted.escape
  split_ifs with hquote hback
  · rfl
  · rfl
  · rfl
  · rfl
  · rfl
  · rfl
  · exact scan_literal_of_not_mem (by simpa using Ne.symm hquote) (by simpa using Ne.symm hback)
      depth
  · -- the backslash takes the `u` with it, and what follows has no quotes
    exact scan_literal_of_not_mem (fun h => (Quoted.ne_of_mem_braces h).1 rfl)
      (fun h => (Quoted.ne_of_mem_braces h).2 rfl) depth

theorem scan_escaped (s : List Char) (depth : Nat) :
    scan (.literal depth) (s.flatMap Quoted.escape) = some (.literal depth) := by
  induction s with
  | nil => rfl
  | cons c s ih => rw [List.flatMap_cons, scan_append, scan_escape, Option.bind_some, ih]

/-- Braces inside of a literal do not count. -/
theorem balanced_quoteChars (s : List Char) : Balanced (Quoted.quoteChars s) := by
  intro depth
  have hopen : next (.code depth) '"' = some (.literal depth) := rfl
  rw [Quoted.quoteChars, scan, hopen, Option.bind_some, scan_append, scan_escaped,
    Option.bind_some]
  rfl

end ApiClient.Text.Braces
