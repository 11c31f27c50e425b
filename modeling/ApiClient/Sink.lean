import ApiClient.Outcome

/-!
# Sinks

A sink takes generated text, file after file.

* `Sink`: beginning a file, writing text and ending a line, on a state `σ` with failures `ε`;
* `Sink.Step`, `Sink.perform`: an operation as a value, and what it does;
* `Sink.within`, `Sink.mapFailure`: a sink on a part of a larger state, and with failures of another
  type.
-/

namespace ApiClient

/-- Something that text can be written to. -/
structure Sink (ε σ : Type) where
  /-- Begins the file of a name. What is written from here on belongs to it. -/
  beginFile : String → σ → Outcome ε σ
  /-- Writes a text. -/
  write : String → σ → Outcome ε σ
  /-- Ends a line. -/
  newline : σ → Outcome ε σ

namespace Sink

variable {ε ε' σ τ : Type}

/-- Writes one character. -/
def writeChar (sink : Sink ε σ) (c : Char) : σ → Outcome ε σ := sink.write (String.singleton c)

/-- An operation of a sink. -/
inductive Step where
  | beginFile (name : String)
  | write (data : String)
  | writeChar (c : Char)
  | newline
  deriving DecidableEq, Repr, Inhabited

/-- What an operation does. -/
def perform (sink : Sink ε σ) : Step → σ → Outcome ε σ
  | .beginFile name => sink.beginFile name
  | .write data => sink.write data
  | .writeChar c => sink.writeChar c
  | .newline => sink.newline

/-- A sink on the part of a larger state that `get` finds and `set` replaces. -/
def within (get : τ → σ) (set : τ → σ → τ) (sink : Sink ε σ) : Sink ε τ where
  beginFile name t := (sink.beginFile name (get t)).map (set t)
  write data t := (sink.write data (get t)).map (set t)
  newline t := (sink.newline (get t)).map (set t)

/-- A sink with its failures seen through `f`. -/
def mapFailure (f : ε → ε') (sink : Sink ε σ) : Sink ε' σ where
  beginFile name s := (sink.beginFile name s).mapFailure f
  write data s := (sink.write data s).mapFailure f
  newline s := (sink.newline s).mapFailure f

end Sink

end ApiClient
