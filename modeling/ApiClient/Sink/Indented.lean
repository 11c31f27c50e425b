import ApiClient.Sink

/-!
# Indentation

* `Indented`: a depth, whether the current line still lacks its indentation, and the state of the
  sink below;
* `Indented.move`: the depth after an amount is added;
* `Indented.sink`: a sink that indents every line on its first write.

A line without a write stays empty, and a change of the depth acts on it up to its first write.
-/

namespace ApiClient

/-- The state of an indenting sink over one with state `σ`. -/
structure Indented (σ : Type) where
  /-- How many times the indentation is written. -/
  depth : Nat := 0
  /-- Whether the current line still lacks its indentation. -/
  pending : Bool := true
  /-- The state of the sink below. -/
  inner : σ
  deriving DecidableEq, Repr, Inhabited

namespace Indented

variable {ε σ : Type}

/-- No line is indented deeper than this. -/
def maxDepth : Nat := 0xFFFFFFFF

/-- The depth `depth` changed by `amount`, within the bounds. -/
def moved (depth : Nat) (amount : Int) : Nat := min maxDepth (depth + amount).toNat

/-- Adds `amount` to the depth. A negative amount makes it smaller, at most to zero. -/
def move (amount : Int) (i : Indented σ) : Indented σ := { i with depth := moved i.depth amount }

/-- Writes a text so many times. -/
def writeTimes (below : Sink ε σ) (data : String) : Nat → σ → Outcome ε σ
  | 0, s => { state := s }
  | n + 1, s => (below.write data s).andThen (writeTimes below data n)

/-- Writes the indentation of the current line if it lacks it. -/
def writePending (below : Sink ε σ) (indent : String) (i : Indented σ) : Outcome ε (Indented σ) :=
  if i.pending then
    (writeTimes below indent i.depth i.inner).map fun s => { i with pending := false, inner := s }
  else { state := i }

/-- Begins a file, at depth zero and with a line of its own. -/
def beginFile (below : Sink ε σ) (name : String) (i : Indented σ) : Outcome ε (Indented σ) :=
  (below.beginFile name i.inner).map fun s => { depth := 0, pending := true, inner := s }

/-- Writes a text behind the indentation of its line. -/
def write (below : Sink ε σ) (indent data : String) (i : Indented σ) : Outcome ε (Indented σ) :=
  (writePending below indent i).andThen fun i =>
    (below.write data i.inner).map fun s => { i with inner := s }

/-- Ends a line. The next one lacks its indentation, if the sink below has ended this one. -/
def newline (below : Sink ε σ) (i : Indented σ) : Outcome ε (Indented σ) :=
  let outcome := below.newline i.inner
  outcome.map fun s => { i with pending := i.pending || outcome.failure?.isNone, inner := s }

/-- Indents what goes into `below`, with `indent` for each unit of depth. -/
def sink (below : Sink ε σ) (indent : String) : Sink ε (Indented σ) where
  beginFile := beginFile below
  write := write below indent
  newline := newline below

/-- An operation of an indenting sink. -/
inductive Step where
  | indent (amount : Int)
  | step (step : Sink.Step)
  deriving DecidableEq, Repr, Inhabited

/-- What an operation does. -/
def perform (below : Sink ε σ) (indent : String) :
    Step → Indented σ → Outcome ε (Indented σ)
  | .indent amount, i => { state := i.move amount }
  | .step step, i => (sink below indent).perform step i

/-- Performs operations one after the other, up to the first that fails. -/
def performAll (below : Sink ε σ) (indent : String) :
    List Step → Indented σ → Outcome ε (Indented σ)
  | [], i => { state := i }
  | step :: steps, i =>
    (perform below indent step i).andThen (performAll below indent steps)

end Indented

end ApiClient
