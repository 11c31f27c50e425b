import ApiClient.Proofs.Code.Blocks
import ApiClient.Proofs.Generation.Files

/-!
# Generated files are in blocks

* `balanced_literal`, `balanced_identifier`, `balanced_joined`: what may stand in a generated line;
* `tidy_code`, `parted_code`: the code of a client, for both kinds of files;
* `blockStructured_file`: the file of a part;
* `files_block_structured`: all files of whatever is generated.
-/

namespace ApiClient

open Text Text.Braces Code

namespace Client

/-! ## What may stand in a line -/

theorem balanced_literal (s : String) : Balanced (literal s).toList := by
  rw [toList_literal]
  exact balanced_quoteChars s.toList

theorem balanced_identifier {name : String} (h : isIdentifier name = true) :
    Balanced name.toList :=
  balanced_of_not_mem (not_mem_of_isIdentifier h (by decide))
    (not_mem_of_isIdentifier h (by decide)) (not_mem_of_isIdentifier h (by decide))

theorem balanced_joined {between : String} {texts : List String}
    (hbetween : Balanced between.toList) (htexts : ∀ text ∈ texts, Balanced text.toList) :
    Balanced (between.intercalate texts).toList := by
  rw [String.toList_intercalate]
  refine balanced_intercalate hbetween fun piece hp => ?_
  obtain ⟨text, hmem, rfl⟩ := List.mem_map.mp hp
  exact htexts text hmem

theorem balanced_literals (texts : List String) :
    Balanced (", ".intercalate (texts.map literal)).toList := by
  refine balanced_joined (balanced_of_scan rfl) fun text ht => ?_
  obtain ⟨s, -, rfl⟩ := List.mem_map.mp ht
  exact balanced_literal s

theorem balanced_parserName (format : Format) : Balanced format.parserName.toList := by
  cases format <;> exact balanced_of_scan rfl

theorem balanced_variant (method : Method) : Balanced method.variant.toList := by
  cases method <;> exact balanced_of_scan rfl

theorem balanced_version (version? : Option String) :
    Balanced (match version? with
      | none => "None"
      | some version => "Some(" ++ literal version ++ ")").toList := by
  cases version? with
  | none => exact balanced_of_scan rfl
  | some version =>
    dsimp only
    rw [String.toList_append, String.toList_append]
    exact (balanced_literal version).between 0 rfl rfl

/-! ## The code of a client -/

theorem tidy_constants (config : Config) : TidyAll (constants config) := by
  refine ⟨?_, ?_, trivial⟩
  · exact tidy_between rfl rfl (by decide) (by decide) 0 (by decide) (by decide)
      (balanced_version config.defaultVersion?)
  · exact tidy_between rfl rfl (by decide) (by decide) 0 (by decide) (by decide)
      (balanced_parserName config.defaultFormat)

theorem tidy_declaration : declaration.Tidy := by
  refine tidy_block rfl rfl (by decide) (by decide) (by decide) (by decide) ⟨?_, ?_, trivial⟩
  · exact tidy_line rfl (by decide) (by decide) (by decide)
  · exact tidy_line rfl (by decide) (by decide) (by decide)

theorem tidy_constructor : constructor.Tidy := by
  refine tidy_block rfl rfl (by decide) (by decide) (by decide) (by decide) ⟨?_, trivial⟩
  refine tidy_block rfl rfl (by decide) (by decide) (by decide) (by decide) ⟨?_, ?_, trivial⟩
  · exact tidy_line rfl (by decide) (by decide) (by decide)
  · exact tidy_line rfl (by decide) (by decide) (by decide)

theorem tidy_function {e : Endpoint} (h : isIdentifier e.name = true) : (function e).Tidy := by
  refine tidy_braces_between rfl rfl (by decide) (by decide) (by decide) (balanced_identifier h)
    ⟨?_, ?_, trivial⟩
  · refine tidy_block rfl rfl (by decide) (by decide) (by decide) (by decide)
      ⟨?_, ?_, ?_, ?_, trivial⟩
    · exact tidy_between rfl rfl (by decide) (by decide) 0 (by decide) (by decide)
        (balanced_literal e.name)
    · exact tidy_between rfl rfl (by decide) (by decide) 0 (by decide) (by decide)
        (balanced_variant e.method)
    · exact tidy_between rfl rfl (by decide) (by decide) 0 (by decide) (by decide)
        (balanced_literal e.path)
    · exact tidy_between rfl rfl (by decide) (by decide) 0 (by decide) (by decide)
        (balanced_literals e.params)
  · exact tidy_line rfl (by decide) (by decide) (by decide)

section Module

variable {config : Config} (hname : ∀ name ∈ config.moduleName?, isIdentifier name = true)
include hname

/-- The path to the parser begins with a word. -/
theorem tidy_call :
    (line ("::".intercalate (parserPath config) ++ "(&response.body)")).Tidy := by
  have hplain : ∀ c : Char, continuesIdentifier c = false → c ≠ ':' →
      c ∉ ("::".intercalate (parserPath config)).toList :=
    fun c hc hcolon => not_mem_joined (by simpa using hcolon) (not_mem_parserPath hname hc)
  have hbalanced : Balanced ("::".intercalate (parserPath config)).toList :=
    balanced_of_not_mem (hplain '"' (by decide) (by decide)) (hplain '{' (by decide) (by decide))
      (hplain '}' (by decide) (by decide))
  have hbegins : beginsInside ("::".intercalate (parserPath config)).toList = true := by
    rw [String.toList_intercalate, parserPath]
    cases config.moduleName? <;> rfl
  exact tidy_before rfl (by decide) (by decide) hbegins hbalanced

theorem tidy_dispatch : (dispatch config).Tidy := by
  refine tidy_block rfl rfl (by decide) (by decide) (by decide) (by decide)
    ⟨?_, ?_, tidy_call hname, trivial⟩
  · exact tidy_line rfl (by decide) (by decide) (by decide)
  · exact tidy_line rfl (by decide) (by decide) (by decide)

theorem tidy_code {endpoints : List Endpoint}
    (h : ∀ e ∈ endpoints, isIdentifier e.name = true) :
    TidyAll (Client.code config endpoints) := by
  have hfunctions : TidyAll (endpoints.map function ++ [dispatch config]) := by
    rw [tidyAll_append, tidyAll_iff]
    refine ⟨fun c hc => ?_, tidy_dispatch hname, trivial⟩
    obtain ⟨e, he, rfl⟩ := List.mem_map.mp hc
    exact tidy_function (h e he)
  rw [Client.code, tidyAll_append, tidyAll_append]
  refine ⟨⟨⟨?_, ?_, trivial, trivial⟩, tidy_constants config⟩, trivial, tidy_declaration, trivial,
    ?_, trivial⟩
  · exact tidy_line rfl (by decide) (by decide) (by decide)
  · exact tidy_line rfl (by decide) (by decide) (by decide)
  · exact tidy_block rfl rfl (by decide) (by decide) (by decide) (by decide)
      ⟨tidy_constructor, tidyAll_spaced hfunctions⟩

end Module

theorem parted_code (config : Config) (endpoints : List Endpoint) :
    PartedAll (Client.code config endpoints) := by
  have hfunctions : ∀ c ∈ endpoints.map function ++ [dispatch config],
      c.Parted ∧ c.isEmpty = false := by
    intro c hc
    rw [List.mem_append, List.mem_singleton] at hc
    rcases hc with hc | rfl
    · obtain ⟨e, -, rfl⟩ := List.mem_map.mp hc
      simp [function, braces, Parted, PartedAll, isEmpty]
    · simp [dispatch, braces, Parted, PartedAll, isEmpty]
  have hinside : PartedAll (constructor :: spaced (endpoints.map function ++ [dispatch config])) :=
    (partedAll_cons rfl).mpr ⟨by simp [constructor, braces, Parted, PartedAll, isEmpty],
      partedAll_spaced hfunctions⟩
  simpa [Client.code, constants, declaration, braces, PartedAll, Parted, isEmpty] using hinside

end Client

/-! ## The code of a parser -/

namespace ParserModule

theorem tidy_code (format : Format) : TidyAll (ParserModule.code format) := by
  refine ⟨?_, ?_, trivial, ?_, ?_, trivial⟩
  · exact tidy_between rfl rfl (by decide) (by decide) 1 (by decide) (by decide)
      (Client.balanced_parserName format)
  · exact tidy_line rfl (by decide) (by decide) (by decide)
  · have htag : Balanced format.tag.toList := by
      cases format <;> exact balanced_of_scan rfl
    exact tidy_between rfl rfl (by decide) (by decide) 0 (by decide) (by decide) htag
  · refine tidy_block rfl rfl (by decide) (by decide) (by decide) (by decide) ⟨?_, trivial⟩
    have hbegins : beginsInside format.parserName.toList = true := by cases format <;> decide
    exact tidy_before rfl (by decide) (by decide) hbegins (Client.balanced_parserName format)

theorem parted_code (format : Format) : PartedAll (ParserModule.code format) := by
  simp [ParserModule.code, braces, PartedAll, Parted, isEmpty]

end ParserModule

/-! ## Files -/

namespace SourceFile

variable {config : Config} (hname : ∀ name ∈ config.moduleName?, isIdentifier name = true)
include hname

theorem tidy_wrap {contents : List Code} (h : TidyAll contents) :
    TidyAll (wrap config contents) := by
  rw [wrap, tidyAll_append]
  refine ⟨⟨tidy_line rfl (by decide) (by decide) (by decide), trivial, trivial⟩, ?_⟩
  cases hmodule : config.moduleName? with
  | none => exact h
  | some name =>
    exact ⟨tidy_braces_between rfl rfl (by decide) (by decide) (by decide)
      (Client.balanced_identifier (hname name hmodule)) h, trivial⟩

omit hname in
theorem parted_wrap {contents : List Code} {first : Code} (h : PartedAll contents)
    (hfirst : contents.head? = some first) (hempty : first.isEmpty = false) :
    PartedAll (wrap config contents) := by
  obtain ⟨rest, rfl⟩ := List.head?_eq_some_iff.mp hfirst
  rw [wrap]
  cases config.moduleName? with
  | none =>
    exact (partedAll_cons rfl).mpr ⟨trivial, (partedAll_blank hempty).mpr h⟩
  | some name =>
    exact (partedAll_cons rfl).mpr ⟨trivial, (partedAll_blank rfl).mpr
      ((partedAll_cons rfl).mpr ⟨h, trivial⟩)⟩

omit hname in
theorem getLast?_wrap {contents : List Code} {last : Code} (h : contents.getLast? = some last)
    (hempty : last.isEmpty = false) :
    ∃ last', (wrap config contents).getLast? = some last' ∧ last'.isEmpty = false := by
  rw [wrap, List.getLast?_append]
  cases config.moduleName? with
  | none => exact ⟨last, by rw [h, Option.some_or], hempty⟩
  | some name => exact ⟨_, rfl, rfl⟩

/-- A file is in blocks if its contents are, which do not begin or end with an empty line. -/
theorem blockStructured_ofCode (moduleName : String) {contents : List Code} {first last : Code}
    (hn : nestingOfAll (wrap config contents) ≤ Indented.maxDepth) (hone : OneLinedAll contents)
    (htidy : TidyAll contents) (hparted : PartedAll contents)
    (hfirst : contents.head? = some first) (hfirst' : first.isEmpty = false)
    (hlast : contents.getLast? = some last) (hlast' : last.isEmpty = false) :
    BlockStructured (ofCode config moduleName contents).contents.toList := by
  obtain ⟨last', hend, hempty⟩ := getLast?_wrap hlast hlast'
  exact blockStructured_render hn (Client.oneLined_wrap hname hone) (tidy_wrap hname htidy)
    (parted_wrap hparted hfirst hfirst') hend hempty

end SourceFile

namespace Generation

/-- The file of a part is in blocks, whatever its endpoints hold. -/
theorem blockStructured_file {g : Generation}
    (hname : ∀ name ∈ g.config.moduleName?, isIdentifier name = true)
    (h : ∀ e ∈ g.endpoints, isIdentifier e.name = true) (part : Part) :
    BlockStructured (g.file part).contents.toList := by
  cases part with
  | client =>
    have hlast : (Client.code g.config g.endpoints).getLast? = some (braces
        "impl<H: HttpClient> Api<H> " (Client.constructor ::
          spaced (g.endpoints.map Client.function ++ [Client.dispatch g.config]))) := by
      rw [Client.code, List.getLast?_append]
      rfl
    exact SourceFile.blockStructured_ofCode hname SourceFile.clientModule
      (Client.nesting_wrap g.config g.endpoints) (Client.oneLined_code hname h)
      (Client.tidy_code hname h) (Client.parted_code g.config g.endpoints) rfl rfl hlast rfl
  | parser format =>
    exact SourceFile.blockStructured_ofCode hname (SourceFile.parserModule format)
      (ParserModule.nesting_wrap g.config format) (ParserModule.oneLined_code format)
      (ParserModule.tidy_code format) (ParserModule.parted_code format) rfl rfl rfl rfl

/-- Every generated file is in blocks. -/
theorem files_block_structured {draft : Config.Draft} {config : Config} {sources : List Source}
    {g : Generation} (hc : draft.build = .ok config) (hg : prepare config sources = .ok g) :
    ∀ file ∈ g.files, BlockStructured file.contents.toList := by
  have hname := Config.Draft.isIdentifier_of_build hc
  obtain ⟨endpoints, -, hvalid, -, rfl⟩ := prepare_eq_ok_iff.mp hg
  intro file hfile
  obtain ⟨part, -, rfl⟩ := List.mem_map.mp hfile
  exact blockStructured_file hname (Client.isIdentifier_of_valid hvalid) part

/-- A client in a module, with a path and parameters that have braces, quotes, a backslash and a
line end. -/
theorem files_block_structured_shop :
    (Config.Draft.mk ["json"] (some "shop") none (some "v\x7b1")).build =
        .ok ⟨[.json], some "shop", .json, some "v\x7b1"⟩ ∧
      ∃ g, prepare ⟨[.json], some "shop", .json, some "v\x7b1"⟩
          [.listed [⟨"find", .get, "items/{id}\"\x7d\n", ["\x7d\"\x7b", "\\"]⟩]] = .ok g ∧
        g.files.length = 2 ∧ ∀ file ∈ g.files, BlockStructured file.contents.toList := by
  have hc : (Config.Draft.mk ["json"] (some "shop") none (some "v\x7b1")).build =
      .ok ⟨[.json], some "shop", .json, some "v\x7b1"⟩ := by rfl
  have hfiles : ∀ g, prepare ⟨[.json], some "shop", .json, some "v\x7b1"⟩
      [.listed [⟨"find", .get, "items/{id}\"\x7d\n", ["\x7d\"\x7b", "\\"]⟩]] = .ok g →
      ∀ file ∈ g.files, BlockStructured file.contents.toList :=
    fun g hg => files_block_structured hc hg
  exact ⟨hc, _, rfl, rfl, hfiles _ rfl⟩

end Generation

end ApiClient
