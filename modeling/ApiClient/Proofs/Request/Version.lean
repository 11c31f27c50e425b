import ApiClient.Proofs.Config.Acceptance
import ApiClient.Proofs.Request.Address

/-!
# The version in an address

* `pathPart`, `queryPart`: what stands before the first `?` or `#` of an address, and behind its
  first `?`;
* `not_mem_fill_of_template`: placeholders bring no reserved characters into a path;
* `exists_address`: an address is its base, its version and its path, with a slash before each;
* `KeepsVersion`: an address of which a version is one segment, with nothing but the arguments
  behind its path;
* `keepsVersion_iff`: a version without `?` and `#` is one, and no other;
* `version_segment_of_build`: the same for every version of a configuration.
-/

namespace ApiClient

namespace Text

/-! ## Parts of an address -/

/-- The path of an address: what stands before its first `?` or `#`. -/
def pathPart (url : List Char) : List Char := url.takeWhile fun c => c != '?' && c != '#'

/-- The query string of an address: what stands behind its first `?`. -/
def queryPart (url : List Char) : List Char := (url.dropWhile (· != '?')).drop 1

variable {s query : List Char}

theorem not_mem_pathPart (url : List Char) : '?' ∉ pathPart url ∧ '#' ∉ pathPart url :=
  ⟨fun h => by simpa using List.mem_takeWhile_imp h,
    fun h => by simpa using List.mem_takeWhile_imp h⟩

theorem pathPart_append (hs : '?' ∉ s ∧ '#' ∉ s) (hq : query = [] ∨ query.head? = some '?') :
    pathPart (s ++ query) = s := by
  refine takeWhile_append_of_head (fun c hc => ?_) fun c hc => ?_
  · simp only [Bool.and_eq_true, bne_iff_ne]
    exact ⟨fun he => hs.1 (he ▸ hc), fun he => hs.2 (he ▸ hc)⟩
  · rcases hq with rfl | hq
    · cases hc
    · rw [hq] at hc
      obtain rfl := Option.some.inj hc
      rfl

theorem queryPart_of_not_mem (h : '?' ∉ s) : queryPart s = [] := by
  rw [queryPart, List.dropWhile_eq_nil_iff.mpr (bne_of_not_mem h)]
  rfl

theorem queryPart_append (h : '?' ∉ s) (query : List Char) :
    queryPart (s ++ '?' :: query) = query := by
  rw [queryPart, dropWhile_ne_append h]
  rfl

theorem split_append_sep (sep : Char) (s rest : List Char) :
    split sep (s ++ sep :: rest) = split sep s ++ split sep rest := by
  induction s with
  | nil => exact if_pos rfl
  | cons c s ih =>
    rw [List.cons_append, split, split, ih]
    split_ifs
    · rfl
    · cases hs : split sep s with
      | nil => exact absurd hs (split_ne_nil sep s)
      | cons piece more => rfl

theorem mem_of_mem_dropTailSlashes {c : Char} (h : c ∈ dropTailSlashes s) : c ∈ s := by
  rw [dropTailSlashes, dropTail, List.mem_reverse] at h
  exact List.mem_reverse.mp ((List.dropWhile_sublist _).mem h)

theorem mem_of_mem_stripSlashes {c : Char} (h : c ∈ stripSlashes s) : c ∈ s :=
  (List.dropWhile_sublist _).mem (mem_of_mem_dropTailSlashes (s := s.dropWhile (· == '/')) h)

end Text

namespace Endpoint

open Segment Template

variable {e : Endpoint} {call : Call} {r : Request} {arguments : List Argument}
  {pieces : List Segment}

/-! ## The path -/

/-- Encoded values have no reserved characters, so that these come from the template. -/
theorem not_mem_fill_of_template {c : Char} (hc : c ≠ '%')
    (hr : Text.Percent.isUnreserved c = false) (h : c ∉ pieces.flatMap Segment.print) :
    c ∉ pieces.flatMap (fill arguments) := by
  rw [List.mem_flatMap] at h ⊢
  rintro ⟨piece, hpiece, hmem⟩
  cases piece with
  | literal content => exact h ⟨_, hpiece, hmem⟩
  | placeholder name => exact Text.Percent.not_mem_encode hc hr _ hmem

/-- The address of a checked endpoint: base, version and path, with a slash before each. The path is
that of the template without the slashes at its ends, and it is not empty. -/
theorem exists_address (hvalid : e.validate = .ok ()) {whole : List Segment}
    (hwhole : Template.segments e.path = .ok whole) (hs : Supplied call.arguments whole) :
    ∃ pieces, Template.segments (String.ofList (Text.stripSlashes e.path.toList)) = .ok pieces ∧
      address call (whole.flatMap (fill call.arguments)) =
        Text.dropTailSlashes call.baseUrl.toList ++
          (call.version?.elim [] fun version => '/' :: version.toList) ++
          '/' :: pieces.flatMap (fill call.arguments) ++ '.' :: call.format.extension.toList := by
  obtain ⟨pieces, hpieces, hnames, htrim⟩ := exists_segments_trimmed hwhole
  have hstrip := htrim _ (keepsText_fill call.arguments) fun name hname =>
    endsSolid_fill (hs name hname)
  have hprint := print_of_segments hpieces
  rw [String.toList_ofList] at hprint
  have hne : pieces.flatMap (fill call.arguments) ≠ [] := by
    refine flatMap_fill_ne_nil (fun name hname => hs name (hnames.mem hname)) ?_
    rw [hprint]
    simpa [hasEmptyPath] using (validate_eq_ok_iff.mp hvalid).2.2.1
  refine ⟨pieces, hpieces, ?_⟩
  rw [address, hstrip]
  simp only [List.isEmpty_iff, if_neg hne]
  cases call.version? <;> rfl

/-! ## The version -/

/-- The version is one segment of the path of an address, between the base and the path of the
endpoint. Behind that path there is nothing but the arguments that do not go into a body. -/
structure KeepsVersion (m : Method) (base version path form url : List Char) : Prop where
  pathPart_eq : Text.pathPart url = base ++ '/' :: version ++ '/' :: path
  segments_eq : Text.split '/' (Text.pathPart url) =
    Text.split '/' base ++ version :: Text.split '/' path
  query : if m ∈ [.post, .put, .patch] then '?' ∉ url else Text.queryPart url = form

variable {m : Method} {base version path : List Char}

/-- Neither the base nor the path ends an address, so it is the version that decides. -/
theorem keepsVersion_iff (hslash : '/' ∉ version) (hbase : '?' ∉ base ∧ '#' ∉ base)
    (hpath : '?' ∉ path ∧ '#' ∉ path) :
    KeepsVersion m base version path (Form.encode arguments)
        (carry m (base ++ '/' :: version ++ '/' :: path) (Form.encode arguments)).url.toList ↔
      '?' ∉ version ∧ '#' ∉ version := by
  set whole := base ++ '/' :: version ++ '/' :: path with hwhole
  constructor
  · intro h
    have hnot := Text.not_mem_pathPart (carry m whole (Form.encode arguments)).url.toList
    rw [h.pathPart_eq] at hnot
    exact ⟨fun hc => hnot.1 (by simp [hc]), fun hc => hnot.2 (by simp [hc])⟩
  · intro h
    have hclean : '?' ∉ whole ∧ '#' ∉ whole := by
      simp [hwhole, hbase, hpath, h]
    have hsplit : Text.split '/' whole =
        Text.split '/' base ++ version :: Text.split '/' path := by
      rw [hwhole, List.append_assoc, List.cons_append, Text.split_append_sep,
        Text.split_append hslash]
    obtain ⟨query, hurl, hquery⟩ := url_carry m whole (Form.encode arguments)
    have hpart : Text.pathPart (carry m whole (Form.encode arguments)).url.toList = whole := by
      rw [hurl, String.toList_ofList]
      exact Text.pathPart_append hclean hquery
    refine ⟨hpart, (congrArg (Text.split '/') hpart).trans hsplit, ?_⟩
    have hparts := carry_parts m whole arguments
    by_cases hm : m ∈ [.post, .put, .patch]
    · rw [if_pos hm] at hparts ⊢
      rw [hparts.2, String.toList_ofList]
      exact hclean.1
    · rw [if_neg hm] at hparts ⊢
      rw [hparts.2, String.toList_ofList]
      by_cases harguments : arguments = []
      · rw [if_pos harguments, List.append_nil, Text.queryPart_of_not_mem hclean.1, harguments]
        rfl
      · rw [if_neg harguments, Text.queryPart_append hclean.1]

/-! ## Requests with a version -/

/-- The request of a checked endpoint that has a version: what it carries, and to where. -/
theorem exists_carry {version : String} (hvalid : e.validate = .ok ())
    (hversion : call.version? = some version) (h : e.request call = .ok r) :
    ∃ names pieces, Template.placeholders e.path = .ok names ∧
      Template.segments (String.ofList (Text.stripSlashes e.path.toList)) = .ok pieces ∧
      r = carry e.method (Text.dropTailSlashes call.baseUrl.toList ++ '/' :: version.toList ++
          '/' :: (pieces.flatMap (fill call.arguments) ++ '.' :: call.format.extension.toList))
        (Form.encode (call.arguments.filter (·.1 ∉ names))) := by
  obtain ⟨whole, path, hwhole, hpath, -, rfl⟩ := request_eq_ok_iff.mp h
  obtain ⟨hs, rfl⟩ := fillPath_eq_ok_iff.mp hpath
  obtain ⟨pieces, hpieces, haddress⟩ := exists_address hvalid hwhole hs
  refine ⟨whole.filterMap name?, pieces, ?_, hpieces, ?_⟩
  · rw [Template.placeholders, hwhole]
    rfl
  · rw [haddress, hversion, remaining_eq, List.append_assoc _ ('/' :: _)]
    rfl

theorem not_mem_extension (format : Format) :
    '?' ∉ format.extension.toList ∧ '#' ∉ format.extension.toList := by
  cases format <;> decide

/-- A path of a template without a reserved character has none before its extension. -/
theorem not_mem_path {c : Char} (hc : c ≠ '%') (hr : Text.Percent.isUnreserved c = false)
    (hpieces : Template.segments (String.ofList (Text.stripSlashes e.path.toList)) = .ok pieces)
    (h : c ∉ e.path.toList) : c ∉ pieces.flatMap (fill arguments) := by
  refine not_mem_fill_of_template hc hr ?_
  rw [print_of_segments hpieces, String.toList_ofList]
  exact fun hmem => h (Text.mem_of_mem_stripSlashes hmem)

/-- A version of a configuration is not empty and has no slash in it, and it stands between the base
and the path of every request. It is one segment of the path of the address, unless it has a
question mark or a hash in it: these end the path, and nothing checks for them. -/
theorem version_segment_of_build {draft : Config.Draft} {config : Config} {version : String}
    (hbuild : draft.build = .ok config) (hversion : config.defaultVersion? = some version)
    (hvalid : e.validate = .ok ()) (hplain : '?' ∉ e.path.toList ∧ '#' ∉ e.path.toList)
    (hbase : '?' ∉ call.baseUrl.toList ∧ '#' ∉ call.baseUrl.toList)
    (hcall : call.version? = config.defaultVersion?) (h : e.request call = .ok r) :
    version ≠ "" ∧ '/' ∉ version.toList ∧
      ∃ names pieces, Template.placeholders e.path = .ok names ∧
        Template.segments (String.ofList (Text.stripSlashes e.path.toList)) = .ok pieces ∧
        let base := Text.dropTailSlashes call.baseUrl.toList
        let path := pieces.flatMap (fill call.arguments) ++ '.' :: call.format.extension.toList
        let form := Form.encode (call.arguments.filter (·.1 ∉ names))
        base ++ '/' :: version.toList ++ '/' :: path <+: r.url.toList ∧
          (KeepsVersion e.method base version.toList path form r.url.toList ↔
            '?' ∉ version.toList ∧ '#' ∉ version.toList) := by
  have hchecked : version ≠ "" ∧ '/' ∉ version.toList := by
    obtain ⟨first, rest, -, format, -, -, hchecks, rfl⟩ := Config.Draft.build_eq_ok_iff.mp hbuild
    exact Config.isVersion_iff.mp (hchecks version hversion)
  obtain ⟨names, pieces, hnames, hpieces, rfl⟩ := exists_carry hvalid (hcall.trans hversion) h
  refine ⟨hchecked.1, hchecked.2, names, pieces, hnames, hpieces, ?_, ?_⟩
  · obtain ⟨query, hurl, -⟩ := url_carry e.method _ _
    rw [hurl, String.toList_ofList]
    exact List.prefix_append _ _
  · refine keepsVersion_iff hchecked.2 ?_ ?_
    · exact ⟨fun hc => hbase.1 (Text.mem_of_mem_dropTailSlashes hc),
        fun hc => hbase.2 (Text.mem_of_mem_dropTailSlashes hc)⟩
    · have hquestion : '?' ∉ pieces.flatMap (fill call.arguments) :=
        not_mem_path (by decide) (by decide) hpieces hplain.1
      have hhash : '#' ∉ pieces.flatMap (fill call.arguments) :=
        not_mem_path (by decide) (by decide) hpieces hplain.2
      simp [hquestion, hhash, not_mem_extension]

/-- A version between a base with slashes and a path with a placeholder, whose argument has a
question mark in it that comes out encoded. -/
theorem version_segment_of_build_find :
    (Endpoint.mk "find" .get "/items/{id}" ["q"]).request
        ⟨"http://h//", some "v1", .json, [("q", "?"), ("id", "a?b")]⟩ =
      .ok ⟨.get, "http://h/v1/items/a%3Fb.json?q=%3F", none⟩ ∧
    KeepsVersion .get "http://h".toList "v1".toList "items/a%3Fb.json".toList "q=%3F".toList
      "http://h/v1/items/a%3Fb.json?q=%3F".toList := by
  have h : (Endpoint.mk "find" .get "/items/{id}" ["q"]).request
      ⟨"http://h//", some "v1", .json, [("q", "?"), ("id", "a?b")]⟩ =
        .ok ⟨.get, "http://h/v1/items/a%3Fb.json?q=%3F", none⟩ := by rfl
  refine ⟨h, ?_⟩
  have hbuild : Config.Draft.build { responseTypes := ["json"], defaultVersion? := some "v1" } =
      .ok ⟨[.json], none, .json, some "v1"⟩ := by decide
  obtain ⟨-, -, names, pieces, hnames, hpieces, -, hkeeps⟩ :=
    version_segment_of_build hbuild rfl (by rfl) (by decide) (by decide) rfl h
  obtain rfl : names = ["id"] := Except.ok.inj (hnames.symm.trans rfl)
  obtain rfl : pieces = [.literal "items/", .placeholder "id"] :=
    Except.ok.inj (hpieces.symm.trans rfl)
  exact hkeeps.mpr (by decide)

/-- A version with a question mark in it is let through. The path of the address ends inside of it,
so that it is no segment of the path and the path of the endpoint becomes a query. -/
theorem version_ends_path :
    Config.Draft.build { responseTypes := ["xml"], defaultVersion? := some "v?1" } =
      .ok ⟨[.xml], none, .xml, some "v?1"⟩ ∧
    (Endpoint.mk "kirk" .get "kirk" []).validate = .ok () ∧
    (Endpoint.mk "kirk" .get "kirk" []).request ⟨"http://h", some "v?1", .xml, []⟩ =
      .ok ⟨.get, "http://h/v?1/kirk.xml", none⟩ ∧
    Text.pathPart "http://h/v?1/kirk.xml".toList = "http://h/v".toList ∧
    Text.queryPart "http://h/v?1/kirk.xml".toList = "1/kirk.xml".toList ∧
    ¬ KeepsVersion .get "http://h".toList "v?1".toList "kirk.xml".toList (Form.encode [])
      "http://h/v?1/kirk.xml".toList := by
  refine ⟨by decide, by rfl, by rfl, by decide, by decide, fun h => ?_⟩
  exact absurd h.pathPart_eq (by decide)

end Endpoint

end ApiClient
