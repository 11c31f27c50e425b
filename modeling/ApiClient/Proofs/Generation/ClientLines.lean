import ApiClient.Proofs.Generation.LineReader
import ApiClient.Proofs.Text.Identifier

/-!
# The lines of a client's file

* `readLine?_module`, `readLine?_function`, …: the lines that tell something;
* `told_function`, `told_code`, `told_wrap`: what the parts of the file tell;
* `oneLined_wrap`, `nesting_wrap`: no part of it has line ends of its own or is nested deep;
* `declared_file`: what the whole file tells.
-/

namespace ApiClient.Client

open Text

/-! ## Lines that tell something -/

theorem word_append {stop : Char} {s : List Char} (h : stop ∉ s) (rest : List Char) :
    word stop (s ++ stop :: rest) = String.ofList s := by
  rw [word, takeWhile_ne_append h]

theorem word_identifier {name : String} (h : isIdentifier name = true) {stop : Char}
    (hstop : continuesIdentifier stop = false) (rest : List Char) :
    word stop (name.toList ++ stop :: rest) = name := by
  rw [word_append (not_mem_of_isIdentifier h hstop), String.ofList_toList]

theorem readLine?_module {name : String} (h : isIdentifier name = true) :
    readLine? (("pub mod " ++ name ++ " ").toList ++ ['{']) = some (.moduleName name) := by
  have hread : ∀ t, readLine? ("pub mod ".toList ++ t) = some (.moduleName (word ' ' t)) :=
    readLine?_form (List.mem_of_getElem? (i := 0) rfl)
  have hword : word ' ' (name.toList ++ ' ' :: ['{']) = name := word_identifier h (by decide) _
  rw [String.toList_append, String.toList_append, List.append_assoc, List.append_assoc, hread]
  exact congrArg (some ∘ Declared.moduleName) hword

theorem readLine?_function {name after : String} {l : List Char} (h : isIdentifier name = true)
    (hafter : after = String.ofList ('(' :: l)) (rest : List Char) :
    readLine? (("pub fn " ++ name ++ after).toList ++ rest) = some (.function name) := by
  have hread : ∀ t, readLine? ("pub fn ".toList ++ t) = some (.function (word '(' t)) :=
    readLine?_form (List.mem_of_getElem? (i := 5) rfl)
  rw [hafter, String.toList_append, String.toList_append, List.append_assoc, List.append_assoc,
    hread, String.toList_ofList, List.cons_append, word_identifier h (by decide)]

/-- The two quotes of a literal among other text, the first one with the text before it. -/
theorem toList_literal_between {before opening : String} (h : before ++ "\"" = opening)
    (s after : String) :
    (before ++ literal s ++ after).toList =
      opening.toList ++ (s.toList.flatMap Quoted.escape ++ '"' :: after.toList) := by
  simp [← h, toList_literal, Quoted.quoteChars]

theorem readLine?_version (version? : Option String) :
    readLine? ("const VERSION: Option<&str> = " ++
        (match version? with
          | none => "None"
          | some version => "Some(" ++ literal version ++ ")") ++ ";").toList =
      some (.version version?) := by
  cases version? with
  | none =>
    have hread : ∀ t, readLine? ("const VERSION: Option<&str> = None;".toList ++ t) =
        some (.version none) := readLine?_form (List.mem_of_getElem? (i := 1) rfl)
    have hline : ("const VERSION: Option<&str> = " ++ "None" ++ ";").toList =
        "const VERSION: Option<&str> = None;".toList ++ [] := by simp
    rw [hline, hread]
  | some version =>
    have hread : ∀ t, readLine? ("const VERSION: Option<&str> = Some(\"".toList ++ t) =
        (literal? t).map (.version ∘ some) := readLine?_form (List.mem_of_getElem? (i := 2) rfl)
    have hline : ("const VERSION: Option<&str> = " ++ ("Some(" ++ literal version ++ ")") ++
        ";").toList = "const VERSION: Option<&str> = Some(\"".toList ++
          (version.toList.flatMap Quoted.escape ++ '"' :: ");".toList) := by
      simp [toList_literal, Quoted.quoteChars]
    rw [hline, hread, literal?_escaped]
    rfl

theorem readLine?_format (format : Format) :
    readLine? ("const FORMAT: Format = Format::" ++ format.parserName ++ ";").toList =
      some (.format format) := by
  have hread : ∀ t, readLine? ("const FORMAT: Format = Format::".toList ++ t) =
      (Format.all.find? (·.parserName == word ';' t)).map .format :=
    readLine?_form (List.mem_of_getElem? (i := 3) rfl)
  have hword : word ';' (format.parserName.toList ++ ";".toList) = format.parserName := by
    cases format <;> decide
  have hfind : Format.all.find? (·.parserName == format.parserName) = some format := by
    cases format <;> decide
  rw [String.toList_append, String.toList_append, List.append_assoc, hread, hword, hfind]
  rfl

theorem readLine?_name (s : String) :
    readLine? ("name: " ++ literal s ++ ",").toList = some (.name s) := by
  have hread : ∀ t, readLine? ("name: \"".toList ++ t) = (literal? t).map .name :=
    readLine?_form (List.mem_of_getElem? (i := 7) rfl)
  have hopening : "name: " ++ "\"" = "name: \"" := by simp
  rw [toList_literal_between hopening, hread, literal?_escaped]
  rfl

theorem readLine?_method (m : Method) :
    readLine? ("method: Method::" ++ m.variant ++ ",").toList = some (.method m) := by
  have hread : ∀ t, readLine? ("method: Method::".toList ++ t) =
      (Method.all.find? (·.variant == word ',' t)).map .method :=
    readLine?_form (List.mem_of_getElem? (i := 8) rfl)
  have hword : word ',' (m.variant.toList ++ ",".toList) = m.variant := by
    cases m <;> decide
  have hfind : Method.all.find? (·.variant == m.variant) = some m := by
    cases m <;> decide
  rw [String.toList_append, String.toList_append, List.append_assoc, hread, hword, hfind]
  rfl

theorem readLine?_path (s : String) :
    readLine? ("path: " ++ literal s ++ ",").toList = some (.path s) := by
  have hread : ∀ t, readLine? ("path: \"".toList ++ t) = (literal? t).map .path :=
    readLine?_form (List.mem_of_getElem? (i := 9) rfl)
  have hopening : "path: " ++ "\"" = "path: \"" := by simp
  rw [toList_literal_between hopening, hread, literal?_escaped]
  rfl

theorem readLine?_params (texts : List String) :
    readLine? ("params: &[" ++ ", ".intercalate (texts.map literal) ++ "],").toList =
      some (.params texts) := by
  have hread : ∀ t, readLine? ("params: &[".toList ++ t) = (literals? t).map .params :=
    readLine?_form (List.mem_of_getElem? (i := 10) rfl)
  have hread' := literals?_intercalate texts [',']
  rw [String.toList_append, String.toList_append, List.append_assoc, hread]
  exact congrArg (Option.map Declared.params) hread'

/-! ## What the parts tell -/

variable {depth : Nat} {code : List Code}

/-- What the function of an endpoint tells. -/
def toldOf (e : Endpoint) : List Declared :=
  [.function e.name, .name e.name, .method e.method, .path e.path, .params e.params]

theorem told_function {e : Endpoint} (h : isIdentifier e.name = true) :
    told depth (function e :: code) = toldOf e ++ told depth code := by
  have hhead : readLine? (("pub fn " ++ e.name ++
      "(&self, params: &[(&str, &str)]) -> Result<Document> ").toList ++ ['{']) =
      some (.function e.name) := readLine?_function h rfl _
  have hroute : readLine? ("const ROUTE: Route<'static> = Route ".toList ++ ['{']) = none :=
    readLine?_unlike [_, _, _, _, _, _, _, _, _, _, _] rfl rfl (by decide) (by decide) _
  have hcall : readLine? "self.call(&ROUTE, params)".toList = none :=
    readLine?_other rfl (by decide)
  rw [function, Code.braces, told_block, hhead, told_block, hroute, told_line, readLine?_name,
    told_line, readLine?_method, told_line, readLine?_path, told_line, readLine?_params, told_line,
    hcall]
  rfl

theorem told_spaced (code : List Code) : told depth (Code.spaced code) = told depth code :=
  Code.gathered_spaced readLine?_nil code

variable {endpoints : List Endpoint}

theorem told_functions (h : ∀ e ∈ endpoints, isIdentifier e.name = true) :
    told depth (endpoints.map function) = endpoints.flatMap toldOf := by
  induction endpoints with
  | nil => rfl
  | cons e endpoints ih =>
    rw [List.map_cons, told_function (h e List.mem_cons_self),
      ih fun e' he => h e' (List.mem_cons_of_mem e he), List.flatMap_cons]

theorem told_dispatch (config : Config) : told depth [dispatch config] = [.function "call"] := by
  have hhead : readLine?
      ("fn call(&self, route: &Route, params: &[(&str, &str)]) -> Result<Document> ".toList ++
        ['{']) = some (.function "call") :=
    readLine?_fixed rfl rfl (List.mem_of_getElem? (i := 6) rfl) (by decide) _
  have hrequest : readLine?
      "let request = route.request(&self.base_url, VERSION, FORMAT, params)?;".toList = none :=
    readLine?_other rfl (by decide)
  have hresponse : readLine? "let response = request.send(&self.http)?;".toList = none :=
    readLine?_other rfl (by decide)
  have hparser : readLine?
      ("::".intercalate (parserPath config) ++ "(&response.body)").toList = none := by
    rw [String.toList_append, String.toList_intercalate, parserPath]
    cases config.moduleName? with
    | none => exact readLine?_of_head (by decide) _
    | some name => exact readLine?_of_head (by decide) _
  rw [dispatch, Code.braces, told_block, hhead, told_line, hrequest, told_line, hresponse,
    told_line, hparser]
  rfl

theorem told_constructor :
    told depth (constructor :: code) = .function "new" :: told depth code := by
  have hhead : readLine? ("pub fn new(base_url: impl Into<String>, http: H) -> Self ".toList ++
      ['{']) = some (.function "new") :=
    readLine?_fixed rfl rfl (List.mem_of_getElem? (i := 5) rfl) (by decide) _
  have hself : readLine? ("Self ".toList ++ ['{']) = none := readLine?_of_head (by decide) _
  have hurl : readLine? "base_url: base_url.into(),".toList = none :=
    readLine?_other rfl (by decide)
  have hhttp : readLine? "http,".toList = none := readLine?_other rfl (by decide)
  rw [constructor, Code.braces, told_block, hhead, Code.braces, told_block, hself, told_line, hurl,
    told_line, hhttp]
  rfl

theorem told_declaration : told depth (declaration :: code) = told depth code := by
  have hhead : readLine? ("pub struct Api<H: HttpClient> ".toList ++ ['{']) = none :=
    readLine?_unlike [_, _, _, _, _, _, _, _, _, _, _] rfl rfl (by decide) (by decide) _
  have hurl : readLine? "base_url: String,".toList = none := readLine?_other rfl (by decide)
  have hhttp : readLine? "http: H,".toList = none := readLine?_other rfl (by decide)
  rw [declaration, Code.braces, told_block, hhead, told_line, hurl, told_line, hhttp]
  rfl

theorem told_constants (config : Config) :
    told depth (constants config) =
      [.version config.defaultVersion?, .format config.defaultFormat] := by
  rw [constants, told_line, told_line, readLine?_format]
  exact congrArg (·.toList ++ [.format config.defaultFormat])
    (readLine?_version config.defaultVersion?)

theorem told_code (config : Config) (h : ∀ e ∈ endpoints, isIdentifier e.name = true) :
    told depth (Client.code config endpoints) =
      [.version config.defaultVersion?, .format config.defaultFormat, .implementation,
        .function "new"] ++ endpoints.flatMap toldOf ++ [.function "call"] := by
  have himpl : readLine? ("impl<H: HttpClient> Api<H> ".toList ++ ['{']) =
      some .implementation :=
    readLine?_fixed rfl rfl (List.mem_of_getElem? (i := 4) rfl) (by decide) _
  have hruntime : readLine? "use clientgen::runtime::\x7bHttpClient, Route\x7d;".toList = none :=
    readLine?_other rfl (by decide)
  have hnames :
      readLine? "use clientgen::\x7bDocument, Format, Method, Result\x7d;".toList = none :=
    readLine?_other rfl (by decide)
  rw [Client.code, told_append, told_append, told_constants, told_line, hruntime, told_line, hnames,
    told_blank, told_blank, told_declaration, told_blank, Code.braces, told_block, himpl,
    told_constructor, told_spaced, told_append, told_functions h, told_dispatch]
  simp

/-- What a client's file tells, line after line. -/
def toldAll (config : Config) (endpoints : List Endpoint) : List Declared :=
  (config.moduleName?.map Declared.moduleName).toList ++
    [.version config.defaultVersion?, .format config.defaultFormat, .implementation,
      .function "new"] ++ endpoints.flatMap toldOf ++ [.function "call"]

theorem told_wrap {config : Config}
    (hname : ∀ name ∈ config.moduleName?, isIdentifier name = true)
    (h : ∀ e ∈ endpoints, isIdentifier e.name = true) :
    told 0 (SourceFile.wrap config (Client.code config endpoints)) = toldAll config endpoints := by
  have hheader : readLine? SourceFile.header.toList = none := readLine?_other rfl (by decide)
  rw [SourceFile.wrap, told_append, told_line, hheader, told_blank, toldAll]
  cases hmodule : config.moduleName? with
  | none => simp [told_code config h]
  | some name =>
    dsimp only
    rw [Code.braces, told_block, readLine?_module (hname name hmodule), told_code config h]
    simp

/-! ## The parts are lines and blocks -/

/-- Text between two fixed ones. -/
theorem not_mem_between {before s after : String} {l m : List Char}
    (hb : before = String.ofList l) (ha : after = String.ofList m) (hlm : '\n' ∉ l ++ m)
    (hs : '\n' ∉ s.toList) : '\n' ∉ (before ++ s ++ after).toList := by
  rw [List.mem_append, not_or] at hlm
  rw [hb, ha, String.toList_append, String.toList_append, String.toList_ofList,
    String.toList_ofList, List.mem_append, List.mem_append, not_or, not_or]
  exact ⟨⟨hlm.1, hs⟩, hlm.2⟩

theorem not_mem_literal (s : String) : '\n' ∉ (literal s).toList := by
  rw [toList_literal]
  exact Quoted.not_mem_quoteChars (by decide) _

theorem not_mem_identifier {name : String} (h : isIdentifier name = true) :
    '\n' ∉ name.toList :=
  not_mem_of_isIdentifier h (by decide)

theorem not_mem_joined {c : Char} {between : String} {texts : List String}
    (hb : c ∉ between.toList) (ht : ∀ text ∈ texts, c ∉ text.toList) :
    c ∉ (between.intercalate texts).toList := by
  rw [String.toList_intercalate]
  refine not_mem_intercalate hb fun piece hp => ?_
  obtain ⟨text, hmem, rfl⟩ := List.mem_map.mp hp
  exact ht text hmem

theorem oneLined_function {e : Endpoint} (h : isIdentifier e.name = true) :
    (function e).OneLined := by
  have hmethod : '\n' ∉ e.method.variant.toList := by cases e.method <;> decide
  have hparams : '\n' ∉ (", ".intercalate (e.params.map literal)).toList := by
    refine not_mem_joined (by decide) fun text ht => ?_
    obtain ⟨s, -, rfl⟩ := List.mem_map.mp ht
    exact not_mem_literal s
  refine ⟨not_mem_between rfl rfl (by decide) (not_mem_identifier h), ⟨?_, ?_, trivial⟩, by decide⟩
  · refine Code.oneLined_block rfl rfl (by decide) ⟨?_, ?_, ?_, ?_, trivial⟩
    · exact not_mem_between rfl rfl (by decide) (not_mem_literal _)
    · exact not_mem_between rfl rfl (by decide) hmethod
    · exact not_mem_between rfl rfl (by decide) (not_mem_literal _)
    · exact not_mem_between rfl rfl (by decide) hparams
  · exact Code.oneLined_line rfl (by decide)

theorem oneLined_spaced {code : List Code} (h : Code.OneLinedAll code) :
    Code.OneLinedAll (Code.spaced code) := by
  rw [Code.oneLinedAll_iff] at h ⊢
  intro c hc
  obtain ⟨c', hc', hc⟩ := List.mem_flatMap.mp hc
  rw [List.mem_cons, List.mem_singleton] at hc
  rcases hc with rfl | rfl
  · trivial
  · exact h c hc'

section OneLined

variable {config : Config} (hname : ∀ name ∈ config.moduleName?, isIdentifier name = true)
include hname

/-- The path to the parser is made of identifiers. -/
theorem not_mem_parserPath {c : Char} (hc : continuesIdentifier c = false) :
    ∀ text ∈ parserPath config, c ∉ text.toList := by
  have hfixed : ∀ text : String, text.toList.all continuesIdentifier = true →
      c ∉ text.toList := by
    intro text ht hmem
    rw [List.all_eq_true.mp ht c hmem] at hc
    cases hc
  have hparser : c ∉ (SourceFile.parserModule config.defaultFormat).toList := by
    cases config.defaultFormat <;> exact hfixed _ (by decide)
  rw [parserPath]
  cases hmodule : config.moduleName? with
  | none =>
    rw [List.forall_mem_cons, List.forall_mem_cons, List.forall_mem_singleton]
    exact ⟨hfixed _ (by decide), hparser, hfixed _ (by decide)⟩
  | some name =>
    rw [List.forall_mem_cons, List.forall_mem_cons, List.forall_mem_cons, List.forall_mem_cons,
      List.forall_mem_singleton]
    exact ⟨hfixed _ (by decide), hfixed _ (by decide), hparser,
      not_mem_of_isIdentifier (hname name hmodule) hc, hfixed _ (by decide)⟩

theorem oneLined_dispatch : (dispatch config).OneLined := by
  have hparser : '\n' ∉ ("::".intercalate (parserPath config)).toList :=
    not_mem_joined (by decide) (not_mem_parserPath hname (by decide))
  refine Code.oneLined_block rfl rfl (by decide) ⟨?_, ?_, ?_, trivial⟩
  · exact Code.oneLined_line rfl (by decide)
  · exact Code.oneLined_line rfl (by decide)
  · have hline : '\n' ∉ ("" ++ "::".intercalate (parserPath config) ++ "(&response.body)").toList :=
      not_mem_between rfl rfl (by decide) hparser
    rwa [String.empty_append] at hline

theorem oneLined_functions (h : ∀ e ∈ endpoints, isIdentifier e.name = true) :
    Code.OneLinedAll (endpoints.map function ++ [dispatch config]) := by
  rw [Code.oneLinedAll_append, Code.oneLinedAll_iff]
  refine ⟨fun c hc => ?_, oneLined_dispatch hname, trivial⟩
  obtain ⟨e, he, rfl⟩ := List.mem_map.mp hc
  exact oneLined_function (h e he)

omit hname in
theorem oneLined_constants : Code.OneLinedAll (constants config) := by
  refine ⟨not_mem_between rfl rfl (by decide) ?_, not_mem_between rfl rfl (by decide) ?_, trivial⟩
  · split
    · decide
    · exact not_mem_between rfl rfl (by decide) (not_mem_literal _)
  · cases config.defaultFormat <;> decide

theorem oneLined_code (h : ∀ e ∈ endpoints, isIdentifier e.name = true) :
    Code.OneLinedAll (Client.code config endpoints) := by
  have hdeclaration : declaration.OneLined := by
    refine Code.oneLined_block rfl rfl (by decide) ⟨?_, ?_, trivial⟩
    · exact Code.oneLined_line rfl (by decide)
    · exact Code.oneLined_line rfl (by decide)
  have hconstructor : constructor.OneLined := by
    refine Code.oneLined_block rfl rfl (by decide) ⟨?_, trivial⟩
    refine Code.oneLined_block rfl rfl (by decide) ⟨?_, ?_, trivial⟩
    · exact Code.oneLined_line rfl (by decide)
    · exact Code.oneLined_line rfl (by decide)
  have hfunctions := oneLined_spaced (oneLined_functions hname h)
  rw [Client.code, Code.oneLinedAll_append, Code.oneLinedAll_append]
  refine ⟨⟨⟨?_, ?_, trivial, trivial⟩, oneLined_constants⟩, trivial, hdeclaration, trivial, ?_,
    trivial⟩
  · exact Code.oneLined_line rfl (by decide)
  · exact Code.oneLined_line rfl (by decide)
  · exact Code.oneLined_block rfl rfl (by decide) ⟨hconstructor, hfunctions⟩

/-- The header and the module around a file have no line ends of their own. -/
theorem oneLined_wrap {contents : List Code} (h : Code.OneLinedAll contents) :
    Code.OneLinedAll (SourceFile.wrap config contents) := by
  rw [SourceFile.wrap, Code.oneLinedAll_append]
  refine ⟨⟨Code.oneLined_line rfl (by decide), trivial, trivial⟩, ?_⟩
  cases hmodule : config.moduleName? with
  | none => exact h
  | some name =>
    have hhead : '\n' ∉ ("pub mod " ++ name ++ " ").toList :=
      not_mem_between rfl rfl (by decide) (not_mem_identifier (hname name hmodule))
    exact ⟨⟨hhead, h, by decide⟩, trivial⟩

end OneLined

theorem nesting_spaced {code : List Code} {n : Nat} (h : Code.nestingOfAll code ≤ n) :
    Code.nestingOfAll (Code.spaced code) ≤ n := by
  rw [Code.nestingOfAll_le_iff] at h ⊢
  intro c hc
  obtain ⟨c', hc', hc⟩ := List.mem_flatMap.mp hc
  rw [List.mem_cons, List.mem_singleton] at hc
  rcases hc with rfl | rfl
  · exact Nat.zero_le n
  · exact h c hc'

theorem nesting_functions (config : Config) (endpoints : List Endpoint) :
    Code.nestingOfAll (endpoints.map function ++ [dispatch config]) ≤ 2 := by
  rw [Code.nestingOfAll_append_le, Code.nestingOfAll_le_iff]
  refine ⟨fun c hc => ?_, Nat.le_succ 1⟩
  obtain ⟨e, -, rfl⟩ := List.mem_map.mp hc
  exact Nat.le_refl 2

theorem nesting_code (config : Config) (endpoints : List Endpoint) :
    Code.nestingOfAll (Client.code config endpoints) ≤ 3 := by
  have hinside : Code.nestingOfAll
      (constructor :: Code.spaced (endpoints.map function ++ [dispatch config])) ≤ 2 :=
    Nat.max_le.mpr ⟨Nat.le_refl 2, nesting_spaced (nesting_functions config endpoints)⟩
  rw [Code.nestingOfAll] at hinside
  rw [Client.code, Code.nestingOfAll_append_le, Code.nestingOfAll_append_le]
  refine ⟨⟨Nat.zero_le 3, Nat.zero_le 3⟩, ?_⟩
  simp only [Code.nestingOfAll, Code.nesting, Code.braces, declaration]
  omega

/-- Four levels are few enough for the indented writing. -/
theorem nesting_wrap (config : Config) (endpoints : List Endpoint) :
    Code.nestingOfAll (SourceFile.wrap config (Client.code config endpoints)) ≤
      Indented.maxDepth := by
  have hcode := nesting_code config endpoints
  have hfour : 4 ≤ Indented.maxDepth := by decide
  rw [SourceFile.wrap, Code.nestingOfAll_append_le]
  refine ⟨Nat.zero_le _, ?_⟩
  cases config.moduleName? with
  | none => exact Nat.le_trans hcode (Nat.le_of_succ_le hfour)
  | some name =>
    simp only [Code.nestingOfAll, Code.nesting, Code.braces]
    omega

/-- What a client's file tells, whatever is in it. -/
theorem declared_file {config : Config}
    (hname : ∀ name ∈ config.moduleName?, isIdentifier name = true)
    (h : ∀ e ∈ endpoints, isIdentifier e.name = true) :
    declared (file config endpoints).contents.toList = toldAll config endpoints := by
  have hlines := Code.split_render (nesting_wrap config endpoints)
    (oneLined_wrap hname (oneLined_code hname h))
  rw [file, SourceFile.ofCode]
  dsimp only
  rw [declared, hlines, List.filterMap_append, ← told, told_wrap hname h,
    List.filterMap_cons_none readLine?_nil, List.filterMap_nil, List.append_nil]

end ApiClient.Client
