import Mathlib.Tactic.Common
import ApiClient.Sink.Buffer
import ApiClient.Sink.Indented

/-!
# Indenting into a text

* `Indented.performAll_append`: a run of operations goes on behind another;
* `Indented.HoldsLines`: a sink that only grows, with the same text before the first write of each
  line;
* `Indented.HoldsLines.indented`: an indenting sink over such a sink is one, too;
* `Indented.into`: an indenting sink with the text that it has written so far;
* `Indented.into_write`, `into_write_begun`, `into_newline`, `into_indent`: what each operation adds
  to the text.
-/

namespace ApiClient.Indented

variable {ε σ : Type}

theorem performAll_append (below : Sink ε σ) (indent : String) (first second : List Step)
    (i : Indented σ) :
    performAll below indent (first ++ second) i =
      (performAll below indent first i).andThen (performAll below indent second) := by
  induction first generalizing i with
  | nil => rfl
  | cons step first ih =>
    rw [List.cons_append, performAll, performAll, Outcome.andThen_assoc, funext ih]

/-- The indentation of a line. -/
def indentOf (indent : String) (depth : Nat) : List Char :=
  (List.replicate depth indent.toList).flatten

theorem indentOf_succ (indent : String) (depth : Nat) :
    indentOf indent (depth + 1) = indent.toList ++ indentOf indent depth := by
  simp [indentOf, List.replicate_succ]

/-! ## Sinks that hold lines -/

/-- A sink that only grows. It holds a text whose last line lacks a write or has begun, and puts
`lead` before the first write of each line. -/
structure HoldsLines (below : Sink ε σ) (lead : List Char) (holding : Bool → List Char → σ) :
    Prop where
  write : ∀ data pending text, below.write data (holding pending text) =
    { state := holding false (text ++ (if pending then lead else []) ++ data.toList) }
  newline : ∀ pending text, below.newline (holding pending text) =
    { state := holding true (text ++ ['\n']) }

/-- A buffer puts nothing before a line. -/
theorem holdsLines_buffer :
    HoldsLines (Buffer.sink ε) [] fun _ text => { text := String.ofList text } where
  write data pending text := by
    simp [Buffer.sink, Buffer.append, String.ofList_append]
  newline pending text := by
    simp [Buffer.sink, Buffer.append, String.ofList_append]

/-- An indenting sink over a sink that holds a text. -/
def atop (holding : Bool → List Char → σ) (depth : Nat) (pending : Bool) (text : List Char) :
    Indented σ :=
  { depth, pending, inner := holding pending text }

namespace HoldsLines

variable {below : Sink ε σ} {lead : List Char} {holding : Bool → List Char → σ}
  (h : HoldsLines below lead holding)
include h

theorem writeTimes_begun (indent : String) (n : Nat) (text : List Char) :
    writeTimes below indent n (holding false text) =
      { state := holding false (text ++ indentOf indent n) } := by
  induction n generalizing text with
  | zero => simp [writeTimes, indentOf]
  | succ n ih =>
    rw [writeTimes, h.write, Outcome.andThen_of_success, ih, indentOf_succ]
    simp

/-- The indentation of a line may be empty, so that the line of the sink below begins with the
data. -/
theorem write_pending (indent data : String) (depth : Nat) (text : List Char) :
    (writeTimes below indent depth (holding true text)).andThen (below.write data) =
      { state := holding false (text ++ (lead ++ indentOf indent depth) ++ data.toList) } := by
  cases depth with
  | zero =>
    rw [writeTimes, Outcome.andThen_of_success, h.write]
    simp [indentOf]
  | succ depth =>
    rw [writeTimes, h.write, Outcome.andThen_of_success, h.writeTimes_begun,
      Outcome.andThen_of_success, h.write, indentOf_succ]
    simp

/-- Indentation puts its own text behind that of the sink below. -/
theorem indented (indent : String) (depth : Nat) :
    HoldsLines (sink below indent) (lead ++ indentOf indent depth) (atop holding depth) where
  write data pending text := by
    cases pending with
    | false =>
      simp [sink, Indented.write, writePending, atop, h.write, Outcome.map]
    | true =>
      have hmap : ((writeTimes below indent depth (holding true text)).map
            (Indented.mk depth false)).andThen (fun i => (below.write data i.inner).map
              fun s => { i with inner := s }) =
          ((writeTimes below indent depth (holding true text)).andThen (below.write data)).map
            (Indented.mk depth false) := by
        symm
        apply Outcome.map_andThen
        exact fun s => rfl
      simp only [sink, Indented.write, writePending, atop, if_true]
      rw [hmap, h.write_pending]
      rfl
  newline pending text := by
    simp [sink, Indented.newline, atop, h.newline, Outcome.map]

end HoldsLines

/-! ## Over a text -/

/-- An indenting sink over a buffer that holds `text`. -/
def into (depth : Nat) (pending : Bool) (text : List Char) : Indented Buffer :=
  { depth, pending, inner := { text := String.ofList text } }

/-- A text behind the indentation of its line. -/
def indented (indent : String) (depth : Nat) (text : List Char) : List Char :=
  (List.replicate depth indent.toList).flatten ++ text

variable (indent data : String) (depth : Nat) (text : List Char)

/-- The first write of a line puts the indentation before it. -/
theorem into_write :
    perform (Buffer.sink ε) indent (.step (.write data)) (into depth true text) =
      { state := into depth false (text ++ indented indent depth data.toList) } := by
  have hwrite := ((holdsLines_buffer (ε := ε)).indented indent depth).write data true text
  rw [if_pos rfl, List.nil_append, List.append_assoc] at hwrite
  exact hwrite

theorem into_write_begun :
    perform (Buffer.sink ε) indent (.step (.write data)) (into depth false text) =
      { state := into depth false (text ++ data.toList) } := by
  have hwrite := ((holdsLines_buffer (ε := ε)).indented indent depth).write data false text
  rw [if_neg Bool.false_ne_true, List.append_nil] at hwrite
  exact hwrite

theorem into_newline (pending : Bool) :
    perform (Buffer.sink ε) indent (.step .newline) (into depth pending text) =
      { state := into depth true (text ++ ['\n']) } :=
  (holdsLines_buffer.indented indent depth).newline pending text

theorem into_indent (amount : Int) (pending : Bool) :
    perform (Buffer.sink ε) indent (.indent amount) (into depth pending text) =
      { state := into (moved depth amount) pending text } := rfl

end ApiClient.Indented
