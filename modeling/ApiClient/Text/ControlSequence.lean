/-!
# Control sequences

A text for a terminal may hold control sequences. Where there is no terminal they are left out, and
with them every control character but white space.

* `Stage`: where in a control sequence a character stands;
* `Stage.next`, `Stage.shows`: where the next one stands, and whether this one is shown;
* `strip`: a text without its control sequences.
-/

namespace ApiClient.Text.ControlSequence

/-- White space among the control characters. -/
def isLayout (c : Char) : Bool := c == '\t' || c == '\n' || c == '\x0c' || c == '\r'

/-- A character that is shown outside of control sequences. -/
def isPlain (c : Char) : Bool := isLayout c || (0x20 ≤ c.toNat && c.toNat != 0x7F)

/-- Whether `c` is between two code points. -/
def isWithin (low high : Nat) (c : Char) : Bool := low ≤ c.toNat && c.toNat ≤ high

/-- Where in a control sequence a character stands. -/
inductive Stage where
  | outside
  /-- Behind an escape character. -/
  | escape
  /-- Behind an escape character and others that wait for a last one. -/
  | longEscape
  /-- Among the parameters behind `ESC [`. -/
  | parameters
  /-- Behind `ESC P`, which begins a control string for a device. -/
  | device
  /-- Among the parameters of such a string. -/
  | deviceParameters
  /-- Among the characters that end these parameters. -/
  | deviceParametersEnd
  /-- In a control string, up to a byte that ends it. -/
  | string
  /-- In a command for the operating system, behind `ESC ]` and up to a bell. -/
  | command
  deriving DecidableEq, Repr, Inhabited

namespace Stage

/-- The byte that ends a control string. -/
def stringEnd : UInt8 := 0x9C

/-- Where the next character stands. Two characters cancel a sequence, and the escape character
begins another one. -/
def next (stage : Stage) (c : Char) : Stage :=
  if c.toNat = 0x18 ∨ c.toNat = 0x1A then .outside
  else if c.toNat = 0x1B then .escape
  else
    match stage with
    | .outside => .outside
    | .escape =>
      if c = '[' then .parameters
      else if c = ']' then .command
      else if c = 'P' then .device
      else if c = 'X' ∨ c = '^' ∨ c = '_' then .string
      else if isWithin 0x20 0x2F c then .longEscape
      else if isWithin 0x30 0x7E c then .outside
      else .escape
    | .longEscape => if isWithin 0x30 0x7E c then .outside else .longEscape
    | .parameters => if isWithin 0x40 0x7E c then .outside else .parameters
    | .device =>
      if isWithin 0x20 0x2F c then .deviceParametersEnd
      else if isWithin 0x30 0x3F c then .deviceParameters
      else if isWithin 0x40 0x7E c then .string
      else .device
    | .deviceParameters =>
      if isWithin 0x20 0x2F c then .deviceParametersEnd
      else if isWithin 0x3C 0x7E c then .string
      else .deviceParameters
    | .deviceParametersEnd => if isWithin 0x30 0x7E c then .string else .deviceParametersEnd
    | .string => if (String.utf8EncodeChar c).contains stringEnd then .outside else .string
    | .command => if c.toNat = 0x07 then .outside else .command

/-- Whether a character is shown where it stands. White space is shown even inside the sequences
that are no strings. -/
def shows (stage : Stage) (c : Char) : Bool :=
  match stage with
  | .outside => isPlain c
  | .escape | .longEscape | .parameters => isLayout c
  | _ => false

end Stage

/-- The characters that are shown. Behind a shown character, if `shown`, every plain one is shown as
well, and only one beyond ASCII ends a sequence that is still open then. -/
def visible : (shown : Bool) → Stage → List Char → List Char
  | _, _, [] => []
  | shown, stage, c :: rest =>
    if shown && isPlain c then
      c :: visible true (if c.toNat < 0x80 then stage else .outside) rest
    else if stage.shows c then c :: visible true (stage.next c) rest
    else visible false (stage.next c) rest

/-- A text without its control sequences. -/
def strip (text : String) : String := String.ofList (visible false .outside text.toList)

end ApiClient.Text.ControlSequence
