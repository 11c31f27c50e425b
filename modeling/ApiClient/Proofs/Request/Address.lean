import Mathlib.Data.List.Forall2
import ApiClient.Proofs.Endpoint.Template
import ApiClient.Proofs.Endpoint.Validation
import ApiClient.Proofs.Request.Carrying

/-!
# The address of a request

* `Segment.fill`: what stands in a path for a piece of its template;
* `fillPath_eq_ok_iff`: a path is there if every placeholder has an argument that is not empty;
* `count_fill`: only literal text brings separators into a path;
* `Segment.IsUndivided`, `Segment.GivesBack`, `split_fill`: placeholders between slashes, and their
  arguments read from the pieces of the path;
* `path_of_request`: the parts of an address, and what is read back from its path.
-/

namespace ApiClient

namespace Segment

/-- What stands in a path for a piece of its template: literal text as it is, and the encoded value
of the first argument of a placeholder's name. -/
def fill (arguments : List Argument) : Segment → List Char
  | .literal content => content.toList
  | .placeholder name => Text.Percent.encode ((arguments.lookup name).getD "").toList

/-- The literal text of a piece. -/
def literalText : Segment → List Char
  | .literal content => content.toList
  | .placeholder _ => []

theorem keepsText_fill (arguments : List Argument) : KeepsText (fill arguments) := fun _ => rfl

/-- A piece that is one whole segment between slashes: text without a slash or a placeholder, or
nothing but a placeholder. -/
def IsUndivided : Segment → Prop
  | .literal content => '/' ∉ content.toList ∧ '{' ∉ content.toList
  | .placeholder name => name ≠ "" ∧ '{' ∉ name.toList ∧ '}' ∉ name.toList

/-- A segment of a path is that of its template, or it stands for the argument of a placeholder. -/
def GivesBack (arguments : List Argument) : Segment → List Char → Prop
  | .literal content, s => s = content.toList
  | .placeholder name, s =>
    ∃ value, arguments.lookup name = some value ∧ Text.Percent.decode? s = some value

theorem IsUndivided.isPlain {piece : Segment} (h : piece.IsUndivided) : piece.IsPlain := by
  cases piece with
  | literal content => exact h.2
  | placeholder name => exact h

end Segment

namespace Endpoint

open Segment Template

variable {arguments : List Argument} {pieces : List Segment}

/-- Every placeholder has an argument that is not empty. -/
def Supplied (arguments : List Argument) (pieces : List Segment) : Prop :=
  ∀ name ∈ pieces.filterMap name?, ∃ value, arguments.lookup name = some value ∧ value ≠ ""

theorem pathValue?_eq_some_iff {name value : String} :
    pathValue? arguments name = some value ↔ arguments.lookup name = some value ∧ value ≠ "" := by
  simp [pathValue?, Option.filter_eq_some_iff]

theorem fillPath_eq_ok_iff {e : Endpoint} {path : List Char} :
    e.fillPath arguments pieces = .ok path ↔
      Supplied arguments pieces ∧ pieces.flatMap (fill arguments) = path := by
  induction pieces generalizing path with
  | nil => simp [fillPath, Supplied]
  | cons piece pieces ih =>
    cases piece with
    | literal content =>
      rw [fillPath, map_eq_ok_iff]
      simp only [ih, Supplied, List.filterMap_cons, name?, List.flatMap_cons, fill]
      constructor
      · rintro ⟨rest, ⟨hs, rfl⟩, rfl⟩
        exact ⟨hs, rfl⟩
      · rintro ⟨hs, rfl⟩
        exact ⟨_, ⟨hs, rfl⟩, rfl⟩
    | placeholder name =>
      rw [fillPath, Supplied, List.filterMap_cons]
      simp only [name?, List.forall_mem_cons, List.flatMap_cons]
      cases hvalue : pathValue? arguments name with
      | none =>
        refine iff_of_false (fun h => by cases h) ?_
        rintro ⟨⟨⟨value, hv⟩, -⟩, -⟩
        rw [pathValue?_eq_some_iff.mpr hv] at hvalue
        cases hvalue
      | some value =>
        have hv := pathValue?_eq_some_iff.mp hvalue
        dsimp only
        rw [map_eq_ok_iff, fill, hv.1]
        simp only [ih, Supplied]
        constructor
        · rintro ⟨rest, ⟨hs, rfl⟩, rfl⟩
          exact ⟨⟨⟨value, rfl, hv.2⟩, hs⟩, rfl⟩
        · rintro ⟨⟨-, hs⟩, rfl⟩
          exact ⟨_, ⟨hs, rfl⟩, rfl⟩

/-! ## Separators -/

theorem not_mem_encode_slash (s : List Char) : '/' ∉ Text.Percent.encode s :=
  Text.Percent.not_mem_encode (by decide) (by decide) s

theorem fill_ne_nil {name : String} (h : ∃ value, arguments.lookup name = some value ∧ value ≠ "") :
    fill arguments (.placeholder name) ≠ [] := by
  obtain ⟨value, hvalue, hne⟩ := h
  rw [fill, hvalue]
  exact Text.Percent.encode_ne_nil (by simpa using hne)

theorem endsSolid_fill {name : String}
    (h : ∃ value, arguments.lookup name = some value ∧ value ≠ "") :
    EndsSolid (fill arguments (.placeholder name)) :=
  endsSolid_of_not_mem (fill_ne_nil h) (not_mem_encode_slash _)

/-- Encoded arguments have no reserved characters, so these are counted in literal text. -/
theorem count_fill {c : Char} (hc : c ≠ '%') (hr : Text.Percent.isUnreserved c = false)
    (arguments : List Argument) (pieces : List Segment) :
    (pieces.flatMap (fill arguments)).count c = (pieces.flatMap literalText).count c := by
  induction pieces with
  | nil => rfl
  | cons piece pieces ih =>
    rw [List.flatMap_cons, List.flatMap_cons, List.count_append, List.count_append, ih]
    cases piece with
    | literal content => rfl
    | placeholder name =>
      rw [fill, literalText, Text.Percent.count_encode hc hr]
      rfl

theorem flatMap_fill_ne_nil (hs : Supplied arguments pieces)
    (h : pieces.flatMap Segment.print ≠ []) : pieces.flatMap (fill arguments) ≠ [] := by
  rw [ne_eq, List.flatMap_eq_nil_iff] at h ⊢
  intro hfill
  refine h fun piece hp => ?_
  cases piece with
  | literal content => exact hfill _ hp
  | placeholder name =>
    have hname : name ∈ pieces.filterMap name? := List.mem_filterMap.mpr ⟨_, hp, rfl⟩
    exact absurd (hfill _ hp) (fill_ne_nil (hs name hname))

/-! ## Segments between slashes -/

theorem not_mem_fill {part : Segment} (h : part.IsUndivided) : '/' ∉ fill arguments part := by
  cases part with
  | literal content => exact h.1
  | placeholder name => exact not_mem_encode_slash _

theorem givesBack_fill {part : Segment}
    (h : ∀ name ∈ part.name?, ∃ value, arguments.lookup name = some value) :
    part.GivesBack arguments (fill arguments part) := by
  cases part with
  | literal content => rfl
  | placeholder name =>
    obtain ⟨value, hvalue⟩ := h name rfl
    refine ⟨value, hvalue, ?_⟩
    rw [fill, hvalue, Option.getD_some, Text.Percent.decode?_encode, String.ofList_toList]

/-- A template whose placeholders are whole segments has a path with as many segments. -/
theorem split_fill {parts : List Segment} (hne : parts ≠ [])
    (hparts : ∀ part ∈ parts, part.IsUndivided)
    (hpieces : segments (String.ofList (['/'].intercalate (parts.map Segment.print))) = .ok pieces)
    (hs : Supplied arguments pieces) :
    List.Forall₂ (GivesBack arguments) parts
      (Text.split '/' (pieces.flatMap (fill arguments))) := by
  -- the parts with slashes between them are pieces of the same text
  obtain ⟨found, hfound, hnames, hwritten⟩ :=
    exists_segments_print (isPlain_slashed fun part hp => (hparts part hp).isPlain)
  rw [flatMap_slashed keepsText_print] at hfound
  obtain rfl : found = pieces := Except.ok.inj (hfound.symm.trans hpieces)
  rw [hwritten _ (keepsText_fill arguments), flatMap_slashed (keepsText_fill arguments)]
  have hsplit : Text.split '/' (['/'].intercalate (parts.map (fill arguments))) =
      parts.map (fill arguments) := by
    refine Text.split_intercalate (by simpa using hne) fun piece hp => ?_
    obtain ⟨part, hpart, rfl⟩ := List.mem_map.mp hp
    exact not_mem_fill (hparts part hpart)
  rw [hsplit, List.forall₂_map_right_iff, List.forall₂_same]
  refine fun part hp => givesBack_fill fun name hname => ?_
  have hmem : name ∈ parts.filterMap name? := List.mem_filterMap.mpr ⟨part, hp, hname⟩
  rw [← filterMap_slashed, ← hnames] at hmem
  obtain ⟨value, hvalue, -⟩ := hs name hmem
  exact ⟨value, hvalue⟩

/-! ## Addresses -/

variable {e : Endpoint} {call : Call} {r : Request}

theorem url_carry (m : Method) (address form : List Char) :
    ∃ query, (carry m address form).url = String.ofList (address ++ query) ∧
      (query = [] ∨ query.head? = some '?') := by
  unfold carry
  split
  · exact ⟨[], by rw [List.append_nil], .inl rfl⟩
  · refine ⟨_, rfl, ?_⟩
    split
    · exact .inl rfl
    · exact .inr rfl

/-- The base, the version, the path and the extension make up an address, whatever the arguments
hold. The path is that of the template without the slashes at its ends, and the arguments add no
separators to it. They are read from its segments where placeholders are whole segments. -/
theorem path_of_request (h : e.request call = .ok r) :
    ∃ pieces query,
      let template := Text.stripSlashes e.path.toList
      let path := pieces.flatMap (Segment.fill call.arguments)
      Template.segments (String.ofList template) = .ok pieces ∧
      r.url = String.ofList (Text.dropTailSlashes call.baseUrl.toList ++
        (call.version?.elim [] fun version => '/' :: version.toList) ++
        (if path = [] then [] else '/' :: path) ++ '.' :: call.format.extension.toList ++ query) ∧
      (query = [] ∨ query.head? = some '?') ∧
      (∀ name, .placeholder name ∈ pieces → ∃ value,
        call.arguments.lookup name = some value ∧ value ≠ "" ∧
        Text.Percent.Escaped (Segment.fill call.arguments (.placeholder name)) ∧
        Segment.GivesBack call.arguments (.placeholder name)
          (Segment.fill call.arguments (.placeholder name))) ∧
      (∀ whole, Template.segments e.path = .ok whole →
        Text.stripSlashes (whole.flatMap (Segment.fill call.arguments)) = path) ∧
      (∀ c ∈ ['/', '?', '#'], path.count c = (pieces.flatMap Segment.literalText).count c) ∧
      (e.validate = .ok () → path ≠ [] ∧ path.head? ≠ some '/' ∧ path.getLast? ≠ some '/') ∧
      ∀ parts, parts ≠ [] → (∀ part ∈ parts, Segment.IsUndivided part) →
        ['/'].intercalate (parts.map Segment.print) = template →
        List.Forall₂ (Segment.GivesBack call.arguments) parts (Text.split '/' path) := by
  obtain ⟨whole, path, hwhole, hpath, -, rfl⟩ := request_eq_ok_iff.mp h
  obtain ⟨hs, rfl⟩ := fillPath_eq_ok_iff.mp hpath
  obtain ⟨pieces, hpieces, hnames, htrim⟩ := exists_segments_trimmed hwhole
  have hs' : Supplied call.arguments pieces := fun name hname => hs name (hnames.mem hname)
  have hstrip := htrim _ (keepsText_fill call.arguments) fun name hname =>
    endsSolid_fill (hs name hname)
  obtain ⟨query, hurl, hquery⟩ := url_carry e.method
    (address call (whole.flatMap (Segment.fill call.arguments)))
    (Form.encode (remaining (whole.filterMap name?) call.arguments))
  refine ⟨pieces, query, hpieces, ?_, hquery, ?_, ?_, ?_, ?_, ?_⟩
  · rw [hurl, address, hstrip]
    simp only [List.isEmpty_iff]
    cases call.version? <;> rfl
  · intro name hname
    obtain ⟨value, hvalue, hne⟩ := hs' name (List.mem_filterMap.mpr ⟨_, hname, rfl⟩)
    refine ⟨value, hvalue, hne, Text.Percent.escaped_encode _,
      givesBack_fill fun other hother => ?_⟩
    obtain rfl := Option.some.inj hother
    exact ⟨value, hvalue⟩
  · intro whole' hwhole'
    obtain rfl : whole = whole' := Except.ok.inj (hwhole.symm.trans hwhole')
    exact hstrip
  · intro c hc
    have hreserved : c ≠ '%' ∧ Text.Percent.isUnreserved c = false := by
      simp only [List.mem_cons, List.not_mem_nil, or_false] at hc
      rcases hc with rfl | rfl | rfl <;> exact ⟨by decide, by decide⟩
    exact count_fill hreserved.1 hreserved.2 _ _
  · intro hvalid
    have htext : e.hasEmptyPath = false := (validate_eq_ok_iff.mp hvalid).2.2.1
    have hprint := print_of_segments hpieces
    rw [String.toList_ofList] at hprint
    refine ⟨flatMap_fill_ne_nil hs' ?_, ?_, ?_⟩
    · rw [hprint]
      simpa [hasEmptyPath] using htext
    · rw [← hstrip]
      exact Text.head?_strip rfl _
    · rw [← hstrip]
      exact Text.getLast?_strip rfl _
  · intro parts hne hparts hjoined
    rw [← hjoined] at hpieces
    exact split_fill hne hparts hpieces hs'

/-- A name with a slash, values with separators and beyond ASCII, and slashes at the ends of the
base and of the template. -/
theorem path_of_request_find :
    (Endpoint.mk "find" .get "/a/{id}/{of/x}//" ["q"]).request
        ⟨"http://h//", some "v1", .json, [("id", "b/c?"), ("of/x", "é"), ("q", "1"), ("id", "")]⟩ =
      .ok ⟨.get, "http://h/v1/a/b%2Fc%3F/%C3%A9.json?q=1", none⟩ ∧
    ∃ path query, "http://h/v1/a/b%2Fc%3F/%C3%A9.json?q=1" =
        String.ofList ("http://h/v1".toList ++ '/' :: path ++ ".json".toList ++ query) ∧
      path.count '/' = 2 ∧ path.head? ≠ some '/' ∧ path.getLast? ≠ some '/' ∧
      List.Forall₂ (Segment.GivesBack [("id", "b/c?"), ("of/x", "é"), ("q", "1"), ("id", "")])
        [.literal "a", .placeholder "id", .placeholder "of/x"] (Text.split '/' path) := by
  have h : (Endpoint.mk "find" .get "/a/{id}/{of/x}//" ["q"]).request
        ⟨"http://h//", some "v1", .json, [("id", "b/c?"), ("of/x", "é"), ("q", "1"), ("id", "")]⟩ =
      .ok ⟨.get, "http://h/v1/a/b%2Fc%3F/%C3%A9.json?q=1", none⟩ := by rfl
  refine ⟨h, ?_⟩
  obtain ⟨pieces, query, hpieces, hurl, -, -, -, hcount, hends, hparts⟩ := path_of_request h
  obtain rfl : pieces = [.literal "a/", .placeholder "id", .literal "/", .placeholder "of/x"] :=
    Except.ok.inj (hpieces.symm.trans rfl)
  obtain ⟨-, hhead, hlast⟩ := hends rfl
  exact ⟨_, query, hurl, hcount '/' (by decide), hhead, hlast,
    hparts [.literal "a", .placeholder "id", .placeholder "of/x"] (by decide)
      (by simp [Segment.IsUndivided]) (by decide)⟩

end Endpoint

end ApiClient
