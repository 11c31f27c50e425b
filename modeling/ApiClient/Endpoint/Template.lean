/-!
# Path templates

A path template is literal text with placeholders, each a name in braces.

* `Segment`: a piece of a template, with its text in the template and its name, if it has one;
* `Template.segments`: the pieces of a template, or what is wrong with it;
* `Template.print`: the template that a list of pieces spells;
* `Template.placeholders`: the names in braces.
-/

namespace ApiClient

/-- A piece of a path template. -/
inductive Segment where
  | literal (content : String)
  | placeholder (name : String)
  deriving DecidableEq, Repr, Inhabited

namespace Segment

/-- The text that a piece stands for in a template. -/
def print : Segment → List Char
  | .literal content => content.toList
  | .placeholder name => '{' :: (name.toList ++ ['}'])

/-- The name of a placeholder. -/
def name? : Segment → Option String
  | .literal _ => none
  | .placeholder name => some name

end Segment

namespace Template

/-- What can be wrong with a template. -/
inductive Fault where
  /-- A brace is opened and never closed. -/
  | unterminated
  /-- The name between two braces is empty or has a brace in it. -/
  | badName (name : String)
  deriving DecidableEq, Repr, Inhabited

/-- The wording of a fault of `template`. -/
def Fault.message (template : String) : Fault → String
  | .unterminated => "unterminated placeholder in path '" ++ template ++ "'"
  | .badName name =>
    "invalid placeholder '\x7b" ++ name ++ "\x7d' in path '" ++ template ++ "'"

/-- A literal piece, unless there is no text for one. -/
def literal (content : List Char) : List Segment :=
  if content.isEmpty then [] else [.literal (String.ofList content)]

/-- Reads a template from left to right. `name?` is the name read so far inside braces, and
`content` the text read so far outside of them. -/
def scan (name? : Option (List Char)) (content : List Char) :
    List Char → Except Fault (List Segment)
  | [] => if name?.isSome then .error .unterminated else .ok (literal content)
  | c :: rest =>
    match name? with
    | none =>
      if c = '{' then (literal content ++ ·) <$> scan (some []) [] rest
      else scan none (content ++ [c]) rest
    | some name =>
      if c = '}' then
        if name.isEmpty || name.contains '{' then .error (.badName (String.ofList name))
        else (.placeholder (String.ofList name) :: ·) <$> scan none [] rest
      else scan (some (name ++ [c])) [] rest

/-- The pieces of a template. -/
def segments (template : String) : Except Fault (List Segment) := scan none [] template.toList

/-- The template that a list of pieces spells. -/
def print (pieces : List Segment) : String := String.ofList (pieces.flatMap Segment.print)

/-- The names in braces, in order. -/
def placeholders (template : String) : Except Fault (List String) :=
  (·.filterMap Segment.name?) <$> segments template

end Template

end ApiClient
