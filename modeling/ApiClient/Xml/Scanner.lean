import ApiClient.Xml.Tag

/-!
# The events of a text

A text is a sequence of character data and markup.

* `Event`: a piece of a text, as far as it matters for the tree;
* `Markup.Fault`: what can be wrong with the markup, with its wording;
* `Scanner`: what is left of a text and the start tags that are open;
* `Scanner.next`: the next event and the scanner behind it;
* `Scanner.events`: every event, and the fault that ends them, if there is one.
-/

namespace ApiClient.Xml

/-! ## Events -/

/-- A piece of a text. -/
inductive Event where
  /-- A start tag. -/
  | start (tag : Tag)
  /-- A tag that is a whole element. -/
  | empty (tag : Tag)
  /-- The end tag of the innermost element. -/
  | stop (name : List Char)
  /-- Character data with references. -/
  | text (raw : List Char)
  /-- Character data without references. -/
  | literal (content : List Char)
  /-- A comment, an instruction, a declaration of the document or of its type. -/
  | aside
  deriving DecidableEq, Repr, Inhabited

namespace Markup

/-- The kinds of markup, by how they end. -/
inductive Kind where
  | instruction
  | comment
  | doctype
  | literal
  | tag
  deriving DecidableEq, Repr, Inhabited

/-- What can be wrong with a piece of markup. -/
inductive Fault where
  | unknown
  | unclosed (kind : Kind)
  | noDoctypeName
  | mismatched (expected found : List Char)
  | unmatched (found : List Char)
  deriving DecidableEq, Repr, Inhabited

/-- The wording of markup that does not end. -/
def Kind.unclosedMessage : Kind → String
  | .instruction => "processing instruction or xml declaration not closed: `?>` not found"
  | .comment => "comment not closed: `-->` not found"
  | .doctype => "DOCTYPE not closed: `>` not found"
  | .literal => "CDATA not closed: `]]>` not found"
  | .tag => "tag not closed: `>` not found"

/-- The wording of a fault. -/
def Fault.message : Fault → String
  | .unknown => "syntax error: unknown or missed symbol in markup"
  | .unclosed kind => "syntax error: " ++ kind.unclosedMessage ++ " before end of input"
  | .noDoctypeName =>
    "ill-formed document: `<!DOCTYPE>` declaration does not contain a name of a document type"
  | .mismatched expected found =>
    "ill-formed document: expected `</" ++ String.ofList expected ++ ">`, but `</" ++
      String.ofList found ++ ">` was found"
  | .unmatched found =>
    "ill-formed document: close tag `</" ++ String.ofList found ++
      ">` does not match any open tag"

/-! ## Where markup ends -/

/-- Cuts at the first angle bracket for which what stands before it, in reverse, satisfies `ends`.
-/
def cutWhen (ends : List Char → Bool) (before : List Char) :
    List Char → Option (List Char × List Char)
  | [] => none
  | c :: s =>
    if c = '>' ∧ ends before then some (before.reverse, s) else cutWhen ends (c :: before) s

/-- Cuts at the first closing angle bracket that no opening one before it accounts for. `depth` of
them are open. -/
def cutBalanced (depth : Nat) (before : List Char) : List Char → Option (List Char × List Char)
  | [] => none
  | c :: s =>
    if c = '>' then
      if depth = 0 then some (before.reverse, s) else cutBalanced (depth - 1) (c :: before) s
    else if c = '<' then cutBalanced (depth + 1) (c :: before) s
    else cutBalanced depth (c :: before) s

/-- Cuts at the first closing angle bracket outside of quotes. `quote?` is the quote that is open.
-/
def cutUnquoted (quote? : Option Char) (before : List Char) :
    List Char → Option (List Char × List Char)
  | [] => none
  | c :: s =>
    match quote? with
    | some quote => cutUnquoted (if c = quote then none else some quote) (c :: before) s
    | none =>
      if c = '>' then some (before.reverse, s)
      else cutUnquoted (if c = '"' ∨ c = '\'' then some c else none) (c :: before) s

/-- Two closing square brackets, in reverse. -/
def endsLiteral : List Char → Bool
  | ']' :: ']' :: _ => true
  | _ => false

/-- Two hyphens that are not those of the opening, in reverse. -/
def endsComment : List Char → Bool
  | '-' :: '-' :: before => 2 < before.length
  | _ => false

/-- A question mark, in reverse. -/
def endsInstruction : List Char → Bool
  | '?' :: _ => true
  | _ => false

/-- The kind of the markup that begins with `s`, from behind its angle bracket. -/
def kind? : List Char → Except Fault Kind
  | '!' :: '[' :: _ => .ok .literal
  | '!' :: '-' :: _ => .ok .comment
  | '!' :: c :: _ => if c = 'D' ∨ c = 'd' then .ok .doctype else .error .unknown
  | '!' :: [] => .error .unknown
  | '?' :: _ => .ok .instruction
  | _ => .ok .tag

/-- Cuts markup of a kind at its end: its content and what follows. -/
def Kind.cut (s : List Char) : Kind → Option (List Char × List Char)
  | .literal => cutWhen endsLiteral [] s
  | .comment => cutWhen endsComment [] s
  | .doctype => cutBalanced 0 [] s
  | .instruction => cutWhen endsInstruction [] s
  | .tag => cutUnquoted none [] s

/-! ## What markup says -/

/-- The content of character data without references, from the text between its angle brackets. -/
def literalContent? (content : List Char) : Option (List Char) :=
  match content with
  | '!' :: '[' :: 'C' :: 'D' :: 'A' :: 'T' :: 'A' :: '[' :: s => some (s.take (s.length - 2))
  | _ => none

/-- Whether the text between angle brackets opens as a comment does. -/
def isComment : List Char → Bool
  | '!' :: '-' :: '-' :: _ => true
  | _ => false

/-- What follows the opening of a declaration of the document type. -/
def doctypeContent? (content : List Char) : Option (List Char) :=
  if (content.take 8).map Char.toUpper = ['!', 'D', 'O', 'C', 'T', 'Y', 'P', 'E'] then
    some (content.drop 8)
  else none

/-- The name in an end tag, from behind its slash: without the white space at its end, unless it has
nothing else. -/
def endName (content : List Char) : List Char :=
  let name := (content.reverse.dropWhile isBlank).reverse
  if name.isEmpty then content else name

end Markup

/-! ## Scanning -/

/-- A text that is being read. -/
structure Scanner where
  /-- What is left of it. -/
  rest : List Char
  /-- The names of the start tags without an end tag so far, the innermost first. -/
  openNames : List (List Char)
  deriving DecidableEq, Repr, Inhabited

namespace Scanner

/-- What comes next in a text. -/
inductive Step where
  | ended
  | failed (fault : Markup.Fault) (rest : List Char)
  | event (event : Event) (scanner : Scanner)
  deriving DecidableEq, Repr, Inhabited

/-- The event of a tag with the given content, before `rest`. -/
def tag (openNames : List (List Char)) (content rest : List Char) : Step :=
  match content with
  | '/' :: content =>
    let name := Markup.endName content
    match openNames with
    | [] => .failed (.unmatched name) rest
    | expected :: openNames =>
      if name = expected then .event (.stop name) { rest, openNames }
      else .failed (.mismatched expected name) rest
  | content =>
    if content.getLast? = some '/' then
      .event (.empty (Tag.ofContent content.dropLast)) { rest, openNames }
    else
      let tag := Tag.ofContent content
      .event (.start tag) { rest, openNames := tag.name :: openNames }

/-- The event of markup of a kind with the given content, before `rest`. -/
def markup (openNames : List (List Char)) (kind : Markup.Kind) (content rest : List Char) : Step :=
  match kind with
  | .tag => tag openNames content rest
  | .literal =>
    match Markup.literalContent? content with
    | some text => .event (.literal text) { rest, openNames }
    | none => .failed (.unclosed .literal) rest
  | .comment =>
    if Markup.isComment content then .event .aside { rest, openNames }
    else .failed (.unclosed .comment) rest
  | .doctype =>
    match Markup.doctypeContent? content with
    | some text =>
      if text.all isBlank then .failed .noDoctypeName rest else .event .aside { rest, openNames }
    | none => .failed (.unclosed .doctype) rest
  | .instruction =>
    if content.length < 2 then .failed (.unclosed .instruction) rest
    else .event .aside { rest, openNames }

/-- The next event of a text. -/
def next (scanner : Scanner) : Step :=
  match scanner.rest with
  | [] => .ended
  | '<' :: s =>
    match s with
    | [] => .failed (.unclosed .tag) []
    | c :: s =>
      match Markup.kind? (c :: s) with
      | .error fault => .failed fault (c :: s)
      | .ok kind =>
        match kind.cut (c :: s) with
        | none => .failed (.unclosed kind) []
        | some (content, rest) => markup scanner.openNames kind content rest
  | s =>
    .event (.text (s.takeWhile (· != '<')))
      { rest := s.dropWhile (· != '<'), openNames := scanner.openNames }

/-- A fault of the markup and what was left of the text when it was met. -/
structure Failure where
  fault : Markup.Fault
  rest : List Char
  deriving DecidableEq, Repr, Inhabited

/-- The events of a text, in so many rounds at most, and the fault that ends them. An event takes a
character at least, so the length of the text bounds the number of rounds. -/
def eventsIn : (rounds : Nat) → Scanner → List Event × Option Failure
  | 0, _ => ([], none)
  | rounds + 1, scanner =>
    match scanner.next with
    | .ended => ([], none)
    | .failed fault rest => ([], some { fault, rest })
    | .event event scanner =>
      let more := eventsIn rounds scanner
      (event :: more.1, more.2)

/-- A text without the mark of its byte order. -/
def withoutMark : List Char → List Char
  | [] => []
  | c :: s => if c = '\ufeff' then s else c :: s

/-- A scanner at the beginning of a text. -/
def start (s : List Char) : Scanner := { rest := withoutMark s, openNames := [] }

/-- Every event of a text, and the fault that ends them. -/
def events (s : List Char) : List Event × Option Failure :=
  eventsIn (withoutMark s).length (start s)

end Scanner

end ApiClient.Xml
