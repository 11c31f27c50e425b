import ApiClient.Sink.Buffer
import ApiClient.Sink.Indented

/-!
# Source text in blocks

* `Code`: a line, an empty line, or a block of code in braces;
* `Code.steps`: the operations that write code to an indenting sink;
* `Code.render`: the text that they leave.
-/

namespace ApiClient

/-- A piece of source text. -/
inductive Code where
  | line (text : String)
  | blank
  /-- Code in braces, with what stands on their lines before the opening and behind the closing
  one. -/
  | block (head : String) (body : List Code) (tail : String)
  deriving Repr, Inhabited

namespace Code

/-- A block with nothing behind its closing brace. -/
def braces (head : String) (body : List Code) : Code := .block head body ""

/-- Writing a text, as an operation. -/
def write (data : String) : Indented.Step := .step (.write data)

/-- Ending a line, as an operation. -/
def newline : Indented.Step := .step .newline

mutual

/-- The operations that write a piece of code. -/
def steps : Code → List Indented.Step
  | .line text => [write text, newline]
  | .blank => [newline]
  | .block head body tail =>
    [write head, write "\x7b", .indent 1, newline] ++ stepsOfAll body ++
      [.indent (-1), write "\x7d", write tail, newline]

/-- The operations that write pieces of code one after the other. -/
def stepsOfAll : List Code → List Indented.Step
  | [] => []
  | c :: rest => steps c ++ stepsOfAll rest

end

/-- The indentation of a block. -/
def indentation : String := "    "

/-- The text of pieces of code, one after the other. -/
def render (code : List Code) : String :=
  let below : Sink Empty Buffer := Buffer.sink Empty
  (Indented.performAll below indentation (stepsOfAll code) { inner := {} }).state.inner.text

/-- Pieces of code with an empty line before each. -/
def spaced (code : List Code) : List Code := code.flatMap fun c => [.blank, c]

end Code

end ApiClient
