import ApiClient.Text.Trim
import ApiClient.Xml.Scanner

/-!
# Element trees

* `Element`: an element with everything in it;
* `Xml.Fault`: why a text is no tree, with its wording;
* `Builder`: the elements that are open while events come in;
* `Builder.step`, `Builder.finish`: one event, and the end of all events;
* `Element.ofEvents`, `Element.parse`: the tree that events or a text spell.
-/

namespace ApiClient.Xml

/-- An element. -/
structure Element where
  name : String
  /-- The attributes in order, with the references in their values replaced. -/
  attributes : List (String × String)
  children : List Element
  /-- All the character data directly in the element, without its boundaries. -/
  text : String
  deriving Repr, Inhabited

/-! ## Faults -/

/-- Why a text is no tree. -/
inductive Fault where
  /-- Bad markup, whose reading came so many bytes far. -/
  | markup (fault : Markup.Fault) (offset : Nat)
  | tag (fault : Tag.Fault)
  | reference (fault : Reference.Fault)
  | secondRoot
  | tooDeep
  | unexpectedEnd
  | textOutside
  | unclosed (name : String)
  | noRoot
  deriving DecidableEq, Repr, Inhabited

/-- Elements are nested no deeper than this. -/
def maxDepth : Nat := 128

/-- The wording of a fault. -/
def Fault.message : Fault → String
  | .markup fault offset => fault.message ++ " (at byte " ++ toString offset ++ ")"
  | .tag fault => fault.message
  | .reference fault => fault.message
  | .secondRoot => "more than one root element"
  | .tooDeep => "elements nested deeper than " ++ toString maxDepth ++ " levels"
  | .unexpectedEnd => "unexpected end tag"
  | .textOutside => "text outside of the root element"
  | .unclosed name => "unclosed element <" ++ name ++ ">"
  | .noRoot => "no root element"

/-! ## Building -/

/-- The elements that have been read. -/
structure Builder where
  /-- The elements without an end tag so far, the innermost first. -/
  opened : List Element := []
  /-- The outermost element, once it is complete. -/
  root? : Option Element := none
  deriving Repr, Inhabited

namespace Builder

/-- The element of a start tag, with nothing in it. -/
def element (tag : Tag) : Except Fault Element := do
  let attributes ← tag.attributes.mapError .tag
  return { name := String.ofList tag.name, attributes, children := [], text := "" }

/-- Whether another element may begin here. -/
def mayBegin (b : Builder) : Except Fault Unit :=
  if b.opened.isEmpty ∧ b.root?.isSome then .error .secondRoot
  else if maxDepth ≤ b.opened.length then .error .tooDeep
  else .ok ()

/-- Puts a complete element in its place: behind its siblings, or at the root. -/
def close (b : Builder) (e : Element) : Builder :=
  match b.opened with
  | [] => { b with root? := some e }
  | parent :: outer =>
    { b with opened := { parent with children := parent.children ++ [e] } :: outer }

/-- Adds character data to the innermost element. Outside of the root there is only white space. -/
def addText (b : Builder) (s : List Char) : Except Fault Builder :=
  match b.opened with
  | [] => if (Text.strip Text.isBlank s).isEmpty then .ok b else .error .textOutside
  | e :: outer => .ok { b with opened := { e with text := e.text ++ String.ofList s } :: outer }

/-- The builder after an event. -/
def step (b : Builder) : Event → Except Fault Builder
  | .start tag => do
    b.mayBegin
    let e ← element tag
    return { b with opened := e :: b.opened }
  | .empty tag => do
    b.mayBegin
    let e ← element tag
    return b.close e
  | .stop _ =>
    match b.opened with
    | [] => .error .unexpectedEnd
    | e :: outer => .ok (close { b with opened := outer } e)
  | .text raw => do
    let s ← (unescape raw).mapError .reference
    b.addText s
  | .literal content => b.addText content
  | .aside => .ok b

/-- The tree, when all events have come. -/
def finish (b : Builder) : Except Fault Element :=
  match b.opened with
  | e :: _ => .error (.unclosed e.name)
  | [] =>
    match b.root? with
    | some root => .ok root
    | none => .error .noRoot

end Builder

namespace Element

/-- The tree that events spell. -/
def ofEvents (events : List Event) : Except Fault Element := do
  let b ← events.foldlM Builder.step {}
  b.finish

/-- The tree that a text spells. What is wrong with an event comes before what is wrong with the
markup behind it. -/
def parse (s : List Char) : Except Fault Element := do
  let (events, failure?) := Scanner.events s
  let b ← events.foldlM Builder.step {}
  match failure? with
  | some failure =>
    let read := Text.width (Scanner.withoutMark s) - Text.width failure.rest
    throw (.markup failure.fault read)
  | none => b.finish

end Element

end ApiClient.Xml
