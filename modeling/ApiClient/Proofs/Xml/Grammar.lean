import ApiClient.Xml.Element

/-!
# The grammar of events

Which events spell a tree, and which tree they spell, without a builder.

* `Element.depth`, `Element.depths`: how deep elements are nested;
* `Event.chars?`, `Event.IsBlank`, `Event.IsTag`: the character data of an event, white space among
  it, and the tags of elements;
* `Matched`: events in which every end tag is that of the innermost open element;
* `Event.Nests`: what an event does to the names of the open start tags;
* `Balanced`, `Content`: the events of an element, and those between its two tags;
* `Spells`: the events of a whole text, with the tree that they spell;
* `Content.append`, `Content.snoc_chars`, `Content.snoc_child`: content goes on at its end.
-/

namespace ApiClient.Xml

namespace Element

mutual

/-- How deep elements are nested in an element, itself included. -/
def depth : Element → Nat
  | ⟨_, _, children, _⟩ => depths children + 1

/-- How deep elements are nested in a list of elements. -/
def depths : List Element → Nat
  | [] => 0
  | e :: rest => max e.depth (depths rest)

end

/-- The element with more in it, behind what it has. -/
def extend (e : Element) (children : List Element) (text : String) : Element :=
  { e with children := e.children ++ children, text := e.text ++ text }

theorem extend_nil (e : Element) : e.extend [] "" = e := by
  cases e
  simp [extend]

theorem extend_extend (e : Element) (as bs : List Element) (s t : String) :
    (e.extend as s).extend bs t = e.extend (as ++ bs) (s ++ t) := by
  simp [extend, List.append_assoc, String.append_assoc]

end Element

/-! ## Single events -/

namespace Event

/-- The character data of an event, with its references replaced. -/
def chars? : Event → Option (List Char)
  | .text raw => (unescape raw).toOption
  | .literal content => some content
  | _ => none

/-- An event of character data that is only white space. -/
def IsBlank (event : Event) : Prop :=
  ∃ s, event.chars? = some s ∧ ∀ c ∈ s, Text.isBlank c = true

/-- An event of an element's tag. -/
def IsTag : Event → Prop
  | .start _ => True
  | .empty _ => True
  | .stop _ => True
  | _ => False

end Event

/-- Events in which every end tag is that of the innermost open element, behind start tags of
`names`. -/
def Matched : (names : List (List Char)) → List Event → Prop
  | _, [] => True
  | names, .start tag :: events => Matched (tag.name :: names) events
  | [], .stop _ :: _ => False
  | expected :: names, .stop name :: events => name = expected ∧ Matched names events
  | names, _ :: events => Matched names events

/-- What an event does to the names of the start tags that are open: `names` before it and `after`
behind it. -/
def Event.Nests : Event → (names after : List (List Char)) → Prop
  | .start tag, names, after => after = tag.name :: names
  | .stop name, names, after => names = name :: after
  | _, names, after => after = names

theorem Event.Nests.matched {event : Event} {names after : List (List Char)} {events : List Event}
    (h : event.Nests names after) (hm : Matched after events) :
    Matched names (event :: events) := by
  cases event with
  | start tag =>
    cases h
    exact hm
  | stop name =>
    cases h
    exact ⟨rfl, hm⟩
  | empty | text | literal | aside =>
    cases h
    simpa [Matched] using hm

/-! ## Derivations -/

mutual

/-- The events of one element. -/
inductive Balanced : List Event → Element → Prop
  | empty {tag : Tag} {attributes : List (String × String)}
      (h : tag.attributes = .ok attributes) :
      Balanced [.empty tag] ⟨String.ofList tag.name, attributes, [], ""⟩
  | pair {tag : Tag} {attributes : List (String × String)} {inner : List Event}
      {children : List Element} {text : String} (h : tag.attributes = .ok attributes)
      (inside : Content inner children text) :
      Balanced (.start tag :: (inner ++ [.stop tag.name]))
        ⟨String.ofList tag.name, attributes, children, text⟩

/-- The events between two tags, with the elements and the character data among them. -/
inductive Content : List Event → List Element → String → Prop
  | nil : Content [] [] ""
  | chars {event : Event} {s : List Char} {events : List Event} {children : List Element}
      {text : String} (h : event.chars? = some s) (rest : Content events children text) :
      Content (event :: events) children (String.ofList s ++ text)
  | child {inner events : List Event} {e : Element} {children : List Element} {text : String}
      (first : Balanced inner e) (rest : Content events children text) :
      Content (inner ++ events) (e :: children) text

end

/-- The events of a text without asides: one element with nothing but white space around it. -/
def Enclosed (events : List Event) (e : Element) : Prop :=
  ∃ before inner after, events = before ++ inner ++ after ∧ (∀ x ∈ before, x.IsBlank) ∧
    Balanced inner e ∧ ∀ x ∈ after, x.IsBlank

/-- The events that count for the tree. -/
def significant (events : List Event) : List Event := events.filter (· != .aside)

/-- Events that spell a tree. -/
structure Spells (events : List Event) (e : Element) : Prop where
  enclosed : Enclosed (significant events) e
  depth_le : e.depth ≤ maxDepth

/-! ## Content goes on at its end -/

theorem Content.append {events more : List Event} {as bs : List Element} {s t : String} :
    Content events as s → Content more bs t → Content (events ++ more) (as ++ bs) (s ++ t)
  | .nil, h => by simpa using h
  | .chars hc rest, h => by
    simpa [String.append_assoc] using Content.chars hc (rest.append h)
  | .child first rest, h => by
    simpa [List.append_assoc] using Content.child first (rest.append h)

theorem Content.snoc_chars {events : List Event} {children : List Element} {text : String}
    {event : Event} {s : List Char} (h : Content events children text)
    (hc : event.chars? = some s) :
    Content (events ++ [event]) children (text ++ String.ofList s) := by
  simpa using h.append (.chars hc .nil)

theorem Content.snoc_child {events inner : List Event} {children : List Element} {text : String}
    {e : Element} (h : Content events children text) (first : Balanced inner e) :
    Content (events ++ inner) (children ++ [e]) text := by
  simpa using h.append (.child first .nil)

end ApiClient.Xml
