import ApiClient.Xml.Conversion
import ApiClient.Proofs.Xml.Reading
import ApiClient.Proofs.Xml.Tags

/-!
# Reading a rendering back

Every text of a tree is read back as this tree.

* `next_start`, `next_empty`, `next_stop`, `next_literal`, `next_comment`, `next_declaration`: the
  event of a piece of markup;
* `scans_text`: the events of a piece of character data, which are one or none;
* `Tree.Rendering.scans`, `Mixed.Rendering.scans`: the events of a rendering derive its element;
* `Tree.Printed.scans`: the events of a text of a tree spell its element;
* `parse_printed`: the document of a text is that of its tree.
-/

namespace ApiClient.Xml

open Scanner
open Text (ne_of_test)

/-! ## Markup -/

theorem kind_of_isNameChar {c : Char} (hc : isNameChar c = true) (s : List Char) :
    Markup.kind? (c :: s) = .ok .tag := by
  have h₁ : c ≠ '!' := ne_of_test hc (by decide)
  have h₂ : c ≠ '?' := ne_of_test hc (by decide)
  unfold Markup.kind?
  split <;> simp_all

theorem tag_of_isNameChar {c : Char} (hc : isNameChar c = true) (names : List (List Char))
    (s rest : List Char) :
    tag names (c :: s) rest =
      if (c :: s).getLast? = some '/' then
        .event (.empty (Tag.ofContent (c :: s).dropLast)) { rest, openNames := names }
      else
        .event (.start (Tag.ofContent (c :: s)))
          { rest, openNames := (Tag.ofContent (c :: s)).name :: names } := by
  have h₁ : c ≠ '/' := ne_of_test hc (by decide)
  unfold tag
  split
  · next h =>
    cases h
    exact absurd rfl h₁
  · rfl

variable {name : String} {attributes : List (String × String)} {a : List Char}

theorem next_start (hn : isName name = true) (ha : AttributesRendering attributes a)
    (hw : AttributesWellFormed attributes) (rest : List Char) (names : List (List Char)) :
    next ⟨'<' :: (name.toList ++ a ++ '>' :: rest), names⟩ =
      .event (.start ⟨name.toList, a⟩) ⟨rest, name.toList :: names⟩ := by
  obtain ⟨c, s, hs, hc, -⟩ := isName_iff.mp hn
  have hcut := (closed_rendering hn ha hw).cut rest
  have hlast := getLast_rendering hn ha
  have hof := ofContent_rendering hn ha
  rw [hs] at hcut hlast hof ⊢
  simp only [List.cons_append] at hcut hlast hof ⊢
  rw [next_markup (kind_of_isNameChar (isNameChar_of_isAlpha hc) _) hcut, Scanner.markup,
    tag_of_isNameChar (isNameChar_of_isAlpha hc), if_neg hlast, hof]

theorem next_empty (hn : isName name = true) (ha : AttributesRendering attributes a)
    (hw : AttributesWellFormed attributes) (rest : List Char) (names : List (List Char)) :
    next ⟨'<' :: (name.toList ++ a ++ '/' :: '>' :: rest), names⟩ =
      .event (.empty ⟨name.toList, a⟩) ⟨rest, names⟩ := by
  obtain ⟨c, s, hs, hc, -⟩ := isName_iff.mp hn
  have hclosed := (closed_rendering hn ha hw).append (Markup.closed_plain (s := ['/']) (by simp))
  have hcut := hclosed.cut rest
  have hof := ofContent_rendering hn ha
  rw [hs] at hcut hof ⊢
  simp only [List.cons_append, List.append_assoc, List.nil_append] at hcut hof ⊢
  have hlast : (c :: (s ++ (a ++ ['/']))).getLast? = some '/' := by
    rw [← List.append_assoc, ← List.cons_append, List.getLast?_concat]
  have hdrop : (c :: (s ++ (a ++ ['/']))).dropLast = c :: (s ++ a) := by
    rw [← List.append_assoc, ← List.cons_append, List.dropLast_concat]
  rw [next_markup (kind_of_isNameChar (isNameChar_of_isAlpha hc) _) hcut, Scanner.markup,
    tag_of_isNameChar (isNameChar_of_isAlpha hc), if_pos hlast, hdrop, hof]

theorem endName_rendering (hn : isName name = true) {gap : List Char}
    (hgap : ∀ c ∈ gap, isBlank c = true) : Markup.endName (name.toList ++ gap) = name.toList := by
  have hdrop : ((name.toList ++ gap).reverse.dropWhile isBlank).reverse = name.toList := by
    rw [List.reverse_append, List.dropWhile_append_of_pos (by simpa using hgap)]
    obtain ⟨c, s, hs⟩ : ∃ c s, name.toList.reverse = c :: s := by
      obtain ⟨c, s, hs, -⟩ := isName_iff.mp hn
      exact List.exists_cons_of_ne_nil (by simp [hs])
    have hc : isBlank c = false := by
      refine isBlank_of_isNameChar (isNameChar_of_mem hn c ?_)
      rw [← List.mem_reverse, hs]
      exact List.mem_cons_self
    rw [hs, List.dropWhile_cons_of_neg (by simp [hc]), ← hs, List.reverse_reverse]
  obtain ⟨c, s, hs, -⟩ := isName_iff.mp hn
  have hempty : name.toList.isEmpty = false := by rw [hs, List.isEmpty_cons]
  simp only [Markup.endName, hdrop, hempty, Bool.false_eq_true, if_false]

theorem next_stop (hn : isName name = true) {gap : List Char}
    (hgap : ∀ c ∈ gap, isBlank c = true) (rest : List Char) (names : List (List Char)) :
    next ⟨'<' :: '/' :: (name.toList ++ gap ++ '>' :: rest), name.toList :: names⟩ =
      .event (.stop name.toList) ⟨rest, names⟩ := by
  have hclosed : Markup.Closed ('/' :: (name.toList ++ gap)) :=
    (Markup.closed_plain (s := ['/']) (by simp)).append
      ((closed_name (isNameChar_of_mem hn)).append (closed_gap hgap))
  have hcut := hclosed.cut rest
  rw [List.cons_append] at hcut
  rw [next_markup rfl hcut, Scanner.markup, tag]
  simp only [endName_rendering hn hgap, if_true]

theorem next_literal {s : List Char} (hs : ¬ "]]>".toList <:+: s) (rest : List Char)
    (names : List (List Char)) :
    next ⟨sectionText s ++ rest, names⟩ = .event (.literal s) ⟨rest, names⟩ := by
  have hcontent : Markup.literalContent? ("![CDATA[".toList ++ s ++ [']', ']']) = some s := by
    simp [Markup.literalContent?]
  have h : next ⟨'<' :: '!' :: ("[CDATA[".toList ++ s ++ "]]>".toList ++ rest), names⟩ =
      markup names .literal ("![CDATA[".toList ++ s ++ [']', ']']) rest :=
    next_markup rfl (Markup.cut_literal hs rest)
  simp only [markup, hcontent] at h
  exact h

theorem next_comment {s : List Char} (hs : Comment s) (rest : List Char)
    (names : List (List Char)) : next ⟨s ++ rest, names⟩ = .event .aside ⟨rest, names⟩ := by
  obtain @⟨s, hs⟩ := hs
  have h : next ⟨'<' :: '!' :: ("--".toList ++ s ++ "-->".toList ++ rest), names⟩ =
      markup names .comment ("!--".toList ++ s ++ ['-', '-']) rest :=
    next_markup rfl (Markup.cut_comment hs rest)
  exact h

theorem next_declaration {s : List Char} (hs : ¬ "?>".toList <:+: s) (rest : List Char)
    (names : List (List Char)) :
    next ⟨"<?xml".toList ++ s ++ "?>".toList ++ rest, names⟩ = .event .aside ⟨rest, names⟩ := by
  have h : next ⟨'<' :: '?' :: ("xml".toList ++ s ++ "?>".toList ++ rest), names⟩ =
      markup names .instruction ("?xml".toList ++ s ++ ['?']) rest :=
    next_markup rfl (Markup.cut_instruction hs rest)
  have hlen : ¬ ("?xml".toList ++ s ++ ['?']).length < 2 := by simp
  rw [markup, if_neg hlen] at h
  exact h

/-! ## Character data -/

/-- Character data up to markup or the end is one event, if there is any. -/
theorem scans_text (q : List Char) {rest : List Char} (hrest : ∀ c, rest.head? = some c → c = '<')
    (names : List (List Char)) :
    ∃ events, Scans ⟨escape q ++ rest, names⟩ events ⟨rest, names⟩ ∧
      (q = [] ∧ events = [] ∨ events = [.text (escape q)]) := by
  by_cases hq : q = []
  · subst hq
    exact ⟨[], .done _, .inl ⟨rfl, rfl⟩⟩
  · have hnext := next_raw (escape_ne_nil hq) (not_mem_escape (.inl rfl) q) hrest names
    exact ⟨[.text (escape q)], .single hnext, .inr rfl⟩

theorem chars_text (q : List Char) : (Event.text (escape q)).chars? = some q := by
  simp [Event.chars?, unescape_escape, Except.toOption]

/-- Character data in front of what has been scanned becomes part of the content. -/
theorem scans_content (q : List Char) {r : List Char} (hr : ∃ s, r = '<' :: s)
    {names : List (List Char)} {events : List Event} {last : Scanner} {children : List Element}
    {text : String} (h : Scans ⟨r, names⟩ events last)
    (hc : Content (significant events) children text) :
    ∃ events', Scans ⟨escape q ++ r, names⟩ events' last ∧
      Content (significant events') children (String.ofList q ++ text) := by
  obtain ⟨s, rfl⟩ := hr
  have hhead : ∀ c, ('<' :: s).head? = some c → c = '<' := fun c hc => by simpa using hc.symm
  obtain ⟨before, hscan, ⟨rfl, rfl⟩ | rfl⟩ := scans_text q hhead names
  · exact ⟨events, h, by simpa using hc⟩
  · exact ⟨_, hscan.append h, .chars (chars_text q) hc⟩

theorem significant_append (events more : List Event) :
    significant (events ++ more) = significant events ++ significant more :=
  List.filter_append ..

theorem sectionText_head (s : List Char) : ∃ s', sectionText s = '<' :: s' := ⟨_, rfl⟩

theorem Comment.head {s : List Char} (h : Comment s) : ∃ s', s = '<' :: s' := by
  obtain @⟨s, -⟩ := h
  exact ⟨_, rfl⟩

theorem Tree.Rendering.head {t : Tree} {s : List Char} (h : t.Rendering s) :
    ∃ s', s = '<' :: s' := by
  cases h with
  | empty => exact ⟨_, rfl⟩
  | pair => exact ⟨_, rfl⟩

/-! ## Elements -/

mutual

/-- The events of a rendering derive its element. -/
theorem Tree.Rendering.scans {t : Tree} {s : List Char} :
    t.Rendering s → t.WellFormed → ∀ (names : List (List Char)) (rest : List Char),
      ∃ events, Scans ⟨s ++ rest, names⟩ events ⟨rest, names⟩ ∧
        Balanced (significant events) t.element
  | @Tree.Rendering.empty name attributes a ha, hw, names, rest => by
    obtain ⟨hn, hattr, -⟩ := hw
    have hnext := next_empty hn ha hattr rest names
    have hb := Balanced.empty (attributes_rendering name.toList ha hattr)
    rw [String.ofList_toList] at hb
    exact ⟨[.empty ⟨name.toList, a⟩], .single (by simpa using hnext), hb⟩
  | @Tree.Rendering.pair name attributes content a s gap ha inside hgap, hw, names, rest => by
    obtain ⟨hn, hattr, hcontent⟩ := hw
    have hstart := next_start hn ha hattr
      (s ++ '<' :: '/' :: (name.toList ++ gap ++ '>' :: rest)) names
    have hstop := next_stop hn hgap rest names
    obtain ⟨events, hscan, hinside⟩ :=
      inside.scans hcontent [] (name.toList :: names) ('/' :: (name.toList ++ gap ++ '>' :: rest))
    have hb := Balanced.pair (attributes_rendering name.toList ha hattr) hinside
    rw [String.ofList_toList] at hb
    refine ⟨.start ⟨name.toList, a⟩ :: (events ++ [.stop name.toList]), ?_, ?_⟩
    · refine .event ?_ (hscan.append (.single hstop))
      simpa using hstart
    · simpa [significant, Tree.element] using hb

/-- The events of what stands in an element, behind character data `q` and up to the next markup,
derive its content. -/
theorem Mixed.Rendering.scans {m : Mixed} {s : List Char} :
    m.Rendering s → m.WellFormed →
      ∀ (q : List Char) (names : List (List Char)) (rest : List Char),
        ∃ events, Scans ⟨escape q ++ (s ++ '<' :: rest), names⟩ events ⟨'<' :: rest, names⟩ ∧
          Content (significant events) m.elements (String.ofList q ++ m.characters)
  | .nil, _, q, names, rest => scans_content q ⟨rest, rfl⟩ (.done _) .nil
  | .textEnd inner, hw, q, names, rest => by
    obtain ⟨events, hscan, h⟩ := inner.scans hw q names rest
    exact ⟨events, hscan, by simpa [Mixed.elements, Mixed.characters] using h⟩
  | @Mixed.Rendering.text s t _ r inner, hw, q, names, rest => by
    -- no markup stands between the two pieces, so that they are read as one event
    obtain ⟨events, hscan, h⟩ := inner.scans hw (q ++ s.toList) names rest
    rw [escape_append, List.append_assoc] at hscan
    refine ⟨events, by simpa using hscan, ?_⟩
    simpa [Mixed.elements, Mixed.characters, String.ofList_append, String.append_assoc] using h
  | @Mixed.Rendering.literal s t _ r hs inner, hw, q, names, rest => by
    obtain ⟨events, hscan, h⟩ := inner.scans hw [] names rest
    have hnext := next_literal hs (r ++ '<' :: rest) names
    have hc : (Event.literal s.toList).chars? = some s.toList := rfl
    obtain ⟨s', hs'⟩ := sectionText_head s.toList
    rw [hs'] at hnext ⊢
    have hall := scans_content q ⟨_, rfl⟩ (.event hnext hscan) (.chars hc h)
    simpa [Mixed.elements, Mixed.characters, String.append_assoc] using hall
  | @Mixed.Rendering.comment _ s r hs inner, hw, q, names, rest => by
    obtain ⟨events, hscan, h⟩ := inner.scans hw [] names rest
    have hnext := next_comment hs (r ++ '<' :: rest) names
    obtain ⟨s', rfl⟩ := hs.head
    have hall := scans_content q ⟨_, rfl⟩ (.event hnext hscan) h
    simpa using hall
  | @Mixed.Rendering.child t _ s r first inner, hw, q, names, rest => by
    obtain ⟨outer, houter, hb⟩ := first.scans hw.1 names (r ++ '<' :: rest)
    obtain ⟨events, hscan, h⟩ := inner.scans hw.2 [] names rest
    have hc := Content.child hb h
    rw [← significant_append] at hc
    obtain ⟨s', rfl⟩ := first.head
    have hall := scans_content q ⟨_, rfl⟩ (houter.append hscan) hc
    simpa [Mixed.elements, Mixed.characters] using hall

end

/-! ## Whole texts -/

theorem not_special_of_isBlank {c : Char} (h : Text.isBlank c = true) : ¬ IsSpecial c := by
  rintro (rfl | rfl | rfl | rfl | rfl) <;> revert h <;> decide

theorem isBlank_text {q : List Char} (hq : ∀ c ∈ q, Text.isBlank c = true) :
    (Event.text (escape q)).IsBlank := ⟨q, chars_text q, hq⟩

/-- The events around a root are white space, also behind white space `q`. -/
theorem Surrounding.scans {s : List Char} (h : Surrounding s) {q : List Char}
    (hq : ∀ c ∈ q, Text.isBlank c = true) {rest : List Char}
    (hrest : ∀ c, rest.head? = some c → c = '<') (names : List (List Char)) :
    ∃ events, Scans ⟨escape q ++ (s ++ rest), names⟩ events ⟨rest, names⟩ ∧
      ∀ x ∈ significant events, x.IsBlank := by
  induction h generalizing q with
  | nil =>
    obtain ⟨events, hscan, ⟨-, rfl⟩ | rfl⟩ := scans_text q hrest names
    · exact ⟨[], hscan, by simp [significant]⟩
    · exact ⟨_, hscan, by simpa [significant] using isBlank_text hq⟩
  | @blank c s hc h ih =>
    -- white space is read together with what follows it, up to the next markup
    have hq' : ∀ d ∈ q ++ [c], Text.isBlank d = true :=
      List.forall_mem_append.mpr ⟨hq, List.forall_mem_singleton.mpr hc⟩
    have hc' : escape [c] = [c] :=
      escape_of_not_special (by simpa using not_special_of_isBlank hc)
    obtain ⟨events, hscan, hb⟩ := ih hq'
    rw [escape_append, hc'] at hscan
    exact ⟨events, by simpa using hscan, hb⟩
  | @comment s r hs h ih =>
    obtain ⟨events, hscan, hb⟩ := ih (q := []) (by simp)
    have hnext := next_comment hs (r ++ rest) names
    obtain ⟨s', rfl⟩ := hs.head
    have hhead : ∀ c, ('<' :: s' ++ (r ++ rest)).head? = some c → c = '<' :=
      fun c hc => by simpa using hc.symm
    obtain ⟨before, hbefore, hcases⟩ := scans_text q hhead names
    refine ⟨before ++ .aside :: events, by simpa using hbefore.append (.event hnext hscan), ?_⟩
    rcases hcases with ⟨-, rfl⟩ | rfl
    · exact hb
    · exact List.forall_mem_cons.mpr ⟨isBlank_text hq, hb⟩

theorem Declaration.scans {s : List Char} (h : Declaration s) (names : List (List Char))
    (rest : List Char) :
    ∃ events, Scans ⟨s ++ rest, names⟩ events ⟨rest, names⟩ ∧ significant events = [] := by
  cases h with
  | none => exact ⟨[], .done _, rfl⟩
  | some hs => exact ⟨[.aside], .single (next_declaration hs rest names), rfl⟩

theorem withoutMark_of_ne {s : List Char} (h : s.head? ≠ some '\ufeff') : withoutMark s = s := by
  cases s with
  | nil => rfl
  | cons c s =>
    rw [withoutMark, if_neg fun hc => h (by rw [hc]; rfl)]

theorem Surrounding.head {s : List Char} (h : Surrounding s) (r : List Char) :
    ∃ c s', s ++ '<' :: r = c :: s' ∧ (c = '<' ∨ Text.isBlank c = true) := by
  cases h with
  | nil => exact ⟨'<', r, rfl, .inl rfl⟩
  | @blank c s hc _ => exact ⟨c, s ++ '<' :: r, rfl, .inr hc⟩
  | comment hs _ =>
    obtain ⟨s', rfl⟩ := hs.head
    exact ⟨'<', _, rfl, .inl rfl⟩

theorem Declaration.head {s : List Char} (h : Declaration s) : s = [] ∨ ∃ s', s = '<' :: s' := by
  cases h with
  | none => exact .inl rfl
  | some => exact .inr ⟨_, rfl⟩

theorem Tree.Printed.head {t : Tree} {s : List Char} (h : t.Printed s) :
    s.head? ≠ some '\ufeff' := by
  cases h with
  | @mk declaration before root after hd hb hr ha =>
    obtain ⟨root', rfl⟩ := hr.head
    rcases hd.head with rfl | ⟨s', rfl⟩
    · obtain ⟨c, s', hs', hc⟩ := hb.head (root' ++ after)
      rw [List.nil_append, List.append_assoc, List.cons_append, hs', List.head?_cons]
      intro he
      cases he
      rcases hc with hc | hc <;> revert hc <;> decide
    · simp

/-- The events of a text of a tree spell its element. -/
theorem Tree.Printed.scans {t : Tree} {s : List Char} (h : t.Printed s) (hw : t.WellFormed) :
    ∃ events, Scanner.events s = (events, none) ∧ Enclosed (significant events) t.element := by
  have hmark := withoutMark_of_ne h.head
  obtain @⟨declaration, before, root, after, hd, hb, hr, ha⟩ := h
  obtain ⟨root', hroot⟩ := hr.head
  have hhead : ∀ c, (root ++ after).head? = some c → c = '<' := by
    intro c hc
    rw [hroot] at hc
    simpa using hc.symm
  have hend : ∀ c, ([] : List Char).head? = some c → c = '<' := by simp
  obtain ⟨events₁, hscan₁, he₁⟩ := hd.scans [] (before ++ (root ++ after))
  obtain ⟨events₂, hscan₂, he₂⟩ := hb.scans (q := []) (by simp) hhead []
  obtain ⟨events₃, hscan₃, he₃⟩ := hr.scans hw [] after
  obtain ⟨events₄, hscan₄, he₄⟩ := ha.scans (q := []) (by simp) hend []
  rw [List.append_nil] at hscan₄
  have hall := hscan₁.append (hscan₂.append (hscan₃.append hscan₄))
  refine ⟨events₁ ++ (events₂ ++ (events₃ ++ events₄)), ?_, ?_⟩
  · have hscan : Scans (start (declaration ++ before ++ root ++ after))
        (events₁ ++ (events₂ ++ (events₃ ++ events₄))) ⟨[], []⟩ := by
      rw [start, hmark]
      simpa using hall
    exact events_of_scans hscan rfl
  · refine ⟨significant events₂, significant events₃, significant events₄, ?_, he₂, he₃, he₄⟩
    simp [significant_append, he₁]

/-- The document of a text of a tree is that of the tree, under the key of its root. A tree that is
nested too deep has no such document. -/
theorem parse_printed {t : Tree} (hw : t.WellFormed) {s : List Char} (hs : t.Printed s) :
    parse (String.ofList s) =
      if t.element.depth ≤ maxDepth then
        .ok (.map [(if t.element.name = "error" then "error" else "response", t.element.body)])
      else .error .tooDeep := by
  obtain ⟨events, he, henc⟩ := hs.scans hw
  rw [parse, String.toList_ofList, Element.parse_of_events he, Element.ofEvents_of_enclosed henc]
  by_cases hd : t.element.depth ≤ maxDepth
  · rw [if_pos hd, if_pos hd]
    simp [Functor.map, Except.map, Element.document, Document.ofPairs, Entries.ofPairs,
      Entries.insert, Element.rootKey, Element.errorName]
  · rw [if_neg hd, if_neg hd]
    rfl

/-- A user with a name in two pieces, one of them a section, and an element between comments. -/
theorem parse_printed_user :
    (Tree.node "u" [("id", "<7>")] (.text "a&\n" (.child (.node "b" [] .nil) .nil))).WellFormed ∧
      (Tree.node "u" [("id", "<7>")] (.text "a&\n" (.child (.node "b" [] .nil) .nil))).Printed
        "<?xml version='1.0'?>\n<u id=\"&lt;7&gt;\">a&amp;<![CDATA[\n]]><!--x--><b/></u >".toList ∧
      parse "<?xml version='1.0'?>\n<u id=\"&lt;7&gt;\">a&amp;<![CDATA[\n]]><!--x--><b/></u >" =
        .ok (.map [("response",
          .map [("id", .text "<7>"), ("b", .map [("value", .text "")])])]) := by
  have hw : (Tree.node "u" [("id", "<7>")]
      (.text "a&\n" (.child (.node "b" [] .nil) .nil))).WellFormed := by
    simp only [Tree.WellFormed, Mixed.WellFormed, AttributesWellFormed]
    decide
  have hgap : ∀ c ∈ [' '], isBlank c = true := List.all_eq_true.mp rfl
  have ha : AttributesRendering [("id", "<7>")] " id=\"&lt;7&gt;\"".toList :=
    @AttributesRendering.cons [' '] [] '"' "id" "<7>" [] (by decide) hgap (.inl rfl)
      (.nil (by simp))
  have hb : (Tree.node "b" [] .nil).Rendering "<b/>".toList := .empty (a := []) (.nil (by simp))
  have hx : Comment "<!--x-->".toList := .mk (s := ['x']) (by decide)
  have hn : Mixed.Rendering (.text "\n" (.child (.node "b" [] .nil) .nil))
      "<![CDATA[\n]]><!--x--><b/>".toList :=
    .literal (s := "\n") (t := "") (by decide) (.textEnd (.comment hx (.child hb .nil)))
  have hu : (Tree.node "u" [("id", "<7>")]
      (.text "a&\n" (.child (.node "b" [] .nil) .nil))).Rendering
      "<u id=\"&lt;7&gt;\">a&amp;<![CDATA[\n]]><!--x--><b/></u >".toList :=
    @Tree.Rendering.pair "u" _ _ _ _ [' '] ha (.text (s := "a&") (t := "\n") hn) hgap
  have hs := Tree.Printed.mk (.some (s := " version='1.0'".toList) (by decide))
    (.blank (c := '\n') (by decide) .nil) hu .nil
  exact ⟨hw, hs, parse_printed hw hs⟩

end ApiClient.Xml
