import Mathlib.Data.List.DropRight
import Mathlib.Data.List.Forall2
import ApiClient.Proofs.Generation.BlockStructure

/-!
# Files in a module of their own

A namespace puts a module around the contents of every file.

* `Code.shifted`, `linesOfAll_succ`: code in a block more has the same lines, further in;
* `WrappedIn`: the lines of a file without and with a module around them;
* `CallReplaced`: the one line of the client that knows of the module;
* `exists_lines_code`: where that line stands;
* `namespace_wraps_and_indents`: all files of two generations, without and with a namespace.
-/

namespace ApiClient

open Text Code

namespace Code

/-! ## One block more -/

/-- A line inside of one block more. An empty line stays empty. -/
def shifted (line : List Char) : List Char :=
  if line = [] then [] else List.replicate 4 ' ' ++ line

theorem indented_succ {text : List Char} (h : text ≠ []) (depth : Nat) :
    indented (depth + 1) text = shifted (indented depth text) := by
  rw [shifted, if_neg (indented_ne_nil h depth), indented_eq, indented_eq, ← List.append_assoc,
    List.replicate_append_replicate, Nat.mul_succ, Nat.add_comm]

mutual

theorem lines_succ : ∀ (c : Code) (depth : Nat), c.Tidy →
    c.lines (depth + 1) = (c.lines depth).map shifted
  | .line text, depth, h => by
    rw [lines, lines, List.map_singleton, indented_succ (ne_nil_of_beginsInside h.1)]
  | .blank, depth, _ => by
    rw [lines, lines]
    rfl
  | .block head body tail, depth, h => by
    obtain ⟨-, -, hbody, -, -⟩ := h
    rw [lines, lines, indented_succ (by simp), indented_succ (by simp),
      linesOfAll_succ body (depth + 1) hbody, List.map_cons, List.map_append, List.map_singleton]

/-- The lines of code do not depend on the blocks around it, but for their indentation. -/
theorem linesOfAll_succ : ∀ (code : List Code) (depth : Nat), TidyAll code →
    linesOfAll (depth + 1) code = (linesOfAll depth code).map shifted
  | [], _, _ => rfl
  | c :: rest, depth, h => by
    obtain ⟨hc, hrest⟩ := h
    rw [linesOfAll, linesOfAll, lines_succ c depth hc, linesOfAll_succ rest depth hrest,
      List.map_append]

end

end Code

/-! ## A file without and with a module -/

/-- Two texts have a header in common and an empty line behind it. Then come `lines` in the first
text, and in the second one `lines'` in the module of a name. -/
structure WrappedIn (name : String) (text text' : String) (lines lines' : List (List Char)) :
    Prop where
  plain : split '\n' text.toList = SourceFile.header.toList :: [] :: (lines ++ [[]])
  wrapped : split '\n' text'.toList = SourceFile.header.toList :: [] ::
    ("pub mod " ++ name ++ " \x7b").toList :: (lines'.map shifted ++ [['}'], []])

/-- The line by which a client calls its parser, from outside of its module. -/
def callOf (path : List String) : List Char :=
  ("::".intercalate path ++ "(&response.body)").toList

/-- One line calls the parser of a format in `lines`, and in `lines'` the same line calls the one in
the module of a name. All other lines are the same. -/
def CallReplaced (format : Format) (name : String) (lines lines' : List (List Char)) : Prop :=
  let parser := format.tag ++ "_response_parser"
  ∃ before spaces after, (∀ c ∈ spaces, c = ' ') ∧
    lines = before ++ (spaces ++ callOf ["super", parser, "parse"]) :: after ∧
    lines' = before ++ (spaces ++ callOf ["super", "super", parser, name, "parse"]) :: after ∧
    ∀ line ∈ before ++ after,
      line.dropWhile (· == ' ') ≠ callOf ["super", parser, "parse"]

/-- Two files of one name, the second with its contents in a module. The client's file calls its
parser in another way, and nothing else is different. -/
def Wraps (format : Format) (name : String) (file file' : SourceFile) : Prop :=
  file'.name = file.name ∧ ∃ lines lines',
    WrappedIn name file.contents file'.contents lines lines' ∧
      if file.name = "api.rs" then CallReplaced format name lines lines' else lines' = lines

namespace SourceFile

/-- The lines of a file with a module are those of the contents in a block more. -/
theorem wrappedIn_ofCode {config : Config} (hnone : config.moduleName? = none) {name : String}
    (hname : isIdentifier name = true) (moduleName : String) {contents contents' : List Code}
    (hn : nestingOfAll (wrap config contents) ≤ Indented.maxDepth)
    (hn' : nestingOfAll (wrap { config with moduleName? := some name } contents') ≤
      Indented.maxDepth)
    (hone : OneLinedAll contents) (hone' : OneLinedAll contents') (htidy : TidyAll contents') :
    WrappedIn name (ofCode config moduleName contents).contents
      (ofCode { config with moduleName? := some name } moduleName contents').contents
      (linesOfAll 0 contents) (linesOfAll 0 contents') where
  plain := by
    have hsplit := split_render hn (Client.oneLined_wrap (by simp [hnone]) hone)
    have hlines : linesOfAll 0 (wrap config contents) =
        header.toList :: [] :: linesOfAll 0 contents := by
      rw [wrap, hnone]
      rfl
    rw [ofCode, hsplit, hlines]
    rfl
  wrapped := by
    have hsplit := split_render hn' (Client.oneLined_wrap (by simpa using hname) hone')
    have hlines : linesOfAll 0 (wrap { config with moduleName? := some name } contents') =
        header.toList :: [] :: ("pub mod " ++ name ++ " \x7b").toList ::
          ((linesOfAll 0 contents').map shifted ++ [['}']]) := by
      have hhead : ("pub mod " ++ name ++ " \x7b").toList =
          ("pub mod " ++ name ++ " ").toList ++ ['{'] := by
        simp
      rw [← linesOfAll_succ contents' 0 htidy, hhead, wrap]
      simp [linesOfAll, lines, braces, indented_eq]
    rw [ofCode, hsplit, hlines]
    simp

end SourceFile

/-! ## The line that knows of the module -/

namespace Client

theorem spaced_append (first second : List Code) :
    spaced (first ++ second) = spaced first ++ spaced second := List.flatMap_append

/-- The lines around the last line of a block in a block. -/
theorem linesOfAll_last (front inside first : List Code) (head head' text : String) :
    linesOfAll 0 (front ++ [braces head (inside ++ [braces head' (first ++ [.line text])])]) =
      (linesOfAll 0 front ++ indented 0 (head.toList ++ ['{']) :: (linesOfAll 1 inside ++
        indented 1 (head'.toList ++ ['{']) :: linesOfAll 2 first)) ++
      indented 2 text.toList :: [indented 1 ['}'], indented 0 ['}']] := by
  simp [linesOfAll_append, linesOfAll, lines, braces]

/-- The code of a client and that of the same client in a module differ in the line that calls the
parser. -/
theorem exists_lines_code (config : Config) (endpoints : List Endpoint) :
    ∃ before after, ∀ moduleName? : Option String,
      linesOfAll 0 (Client.code { config with moduleName? } endpoints) =
        before ++ indented 2 (callOf (parserPath { config with moduleName? })) :: after := by
  have hcode : ∀ moduleName? : Option String,
      Client.code { config with moduleName? } endpoints =
        ([ .line "use clientgen::runtime::\x7bHttpClient, Route\x7d;",
          .line "use clientgen::\x7bDocument, Format, Method, Result\x7d;", .blank ] ++
          constants config ++ [.blank, declaration, .blank]) ++
        [braces "impl<H: HttpClient> Api<H> "
          ((constructor :: (spaced (endpoints.map function) ++ [.blank])) ++
            [dispatch { config with moduleName? }])] := by
    intro moduleName?
    have hspaced : spaced (endpoints.map function ++ [dispatch { config with moduleName? }]) =
        spaced (endpoints.map function) ++ [.blank, dispatch { config with moduleName? }] :=
      spaced_append _ _
    rw [Client.code, hspaced]
    simp [constants]
  exact ⟨_, _, fun moduleName? => (congrArg (linesOfAll 0) (hcode moduleName?)).trans
    (linesOfAll_last _ _ [_, _] _ _ _)⟩

/-- No other line calls a parser. -/
theorem call?_eq_none {config : Config} {endpoints : List Endpoint}
    (hname : ∀ name ∈ config.moduleName?, isIdentifier name = true)
    {before after : List (List Char)}
    (h : linesOfAll 0 (Client.code config endpoints) =
      before ++ indented 2 (callOf (parserPath config)) :: after) :
    ∀ line ∈ before ++ after, call? line = none := by
  have hcalled : (before ++ indented 2 (callOf (parserPath config)) :: after).filterMap call? =
      ["::".intercalate (parserPath config)] := by
    have hcode : called 0 (Client.code config endpoints) = _ := called_code hname endpoints
    rw [← h, ← hcode, called, gathered]
  have hcall : call? (indented 2 (callOf (parserPath config))) =
      some ("::".intercalate (parserPath config)) := by
    rw [call?_indented]
    exact call?_path hname
  rw [List.filterMap_append, List.filterMap_cons_some hcall] at hcalled
  have hlength := congrArg List.length hcalled
  simp only [List.length_append, List.length_cons, List.length_nil] at hlength
  have hbefore : before.filterMap call? = [] := List.eq_nil_of_length_eq_zero (by omega)
  have hafter : after.filterMap call? = [] := List.eq_nil_of_length_eq_zero (by omega)
  rw [List.forall_mem_append]
  exact ⟨List.filterMap_eq_nil_iff.mp hbefore, List.filterMap_eq_nil_iff.mp hafter⟩

theorem callReplaced_code {config : Config} (hnone : config.moduleName? = none) (name : String)
    (endpoints : List Endpoint) :
    CallReplaced config.defaultFormat name (linesOfAll 0 (Client.code config endpoints))
      (linesOfAll 0 (Client.code { config with moduleName? := some name } endpoints)) := by
  obtain ⟨before, after, hlines⟩ := exists_lines_code config endpoints
  have hconfig : { config with moduleName? := none } = config := by rw [← hnone]
  have hplain := hlines none
  rw [hconfig] at hplain
  have hother := call?_eq_none (by simp [hnone]) hplain
  have hpath : parserPath config =
      ["super", config.defaultFormat.tag ++ "_response_parser", "parse"] := by
    rw [parserPath, hnone]
    rfl
  have hcall : call? (callOf (parserPath config)) = some _ := call?_path (by simp [hnone])
  refine ⟨before, List.replicate (4 * 2) ' ', after, fun c hc => List.eq_of_mem_replicate hc,
    ?_, ?_, ?_⟩
  · rw [← indented_eq, ← hpath, hplain]
  · rw [← indented_eq, hlines (some name)]
    rfl
  · intro line hmem hline
    have hdrop : call? (line.dropWhile (· == ' ')) = call? line := by
      rw [call?, call?, List.dropWhile_idempotent]
    rw [hline, ← hpath, hcall, hother line hmem] at hdrop
    cases hdrop

end Client

/-! ## All files -/

namespace Generation

/-- The files of one part, without and with a namespace. -/
theorem wraps_file {config : Config} (hnone : config.moduleName? = none) {name : String}
    (hname : isIdentifier name = true) {endpoints : List Endpoint}
    (h : ∀ e ∈ endpoints, isIdentifier e.name = true) (parts parts' : List Part) (part : Part) :
    Wraps config.defaultFormat name ((Generation.mk config endpoints parts).file part)
      ((Generation.mk { config with moduleName? := some name } endpoints parts').file part) := by
  have hnames : ∀ other ∈ config.moduleName?, isIdentifier other = true := by simp [hnone]
  have hnames' : ∀ other ∈ some name, isIdentifier other = true := by simpa using hname
  cases part with
  | client =>
    refine ⟨rfl, _, _, SourceFile.wrappedIn_ofCode hnone hname SourceFile.clientModule
      (Client.nesting_wrap _ _) (Client.nesting_wrap _ _) (Client.oneLined_code hnames h)
      (Client.oneLined_code hnames' h) (Client.tidy_code hnames' h), ?_⟩
    have hclient : (Generation.file ⟨config, endpoints, parts⟩ .client).name = "api.rs" := rfl
    rw [if_pos hclient]
    exact Client.callReplaced_code hnone name endpoints
  | parser format =>
    refine ⟨rfl, _, _, SourceFile.wrappedIn_ofCode hnone hname (SourceFile.parserModule format)
      (ParserModule.nesting_wrap _ format) (ParserModule.nesting_wrap _ format)
      (ParserModule.oneLined_code format) (ParserModule.oneLined_code format)
      (ParserModule.tidy_code format), ?_⟩
    have hparser : (Generation.file ⟨config, endpoints, parts⟩ (.parser format)).name ≠ "api.rs" :=
      SourceFile.parserName_ne_client format
    rw [if_neg hparser]

/-- A namespace changes every file in the same way: its contents stand in a module. Apart from that,
only the line of the client is different that calls the parser. -/
theorem namespace_wraps_and_indents {draft : Config.Draft} {config config' : Config}
    {name : String} {sources : List Source} {g : Generation} (hdraft : draft.moduleName? = none)
    (hc : draft.build = .ok config)
    (hc' : Config.Draft.build { draft with moduleName? := some name } = .ok config')
    (hg : prepare config sources = .ok g) :
    config' = { config with moduleName? := some name } ∧
      ∃ g', prepare config' sources = .ok g' ∧
        List.Forall₂ (Wraps config.defaultFormat name) g.files g'.files := by
  have hname := Config.Draft.isIdentifier_of_build hc'
  obtain ⟨first, rest, hread, format, hdefault, -, -, rfl⟩ := Config.Draft.build_eq_ok_iff.mp hc
  obtain ⟨first', rest', hread', format', hdefault', -, -, rfl⟩ :=
    Config.Draft.build_eq_ok_iff.mp hc'
  obtain ⟨rfl, rfl⟩ := List.cons_eq_cons.mp (Except.ok.inj (hread.symm.trans hread'))
  obtain rfl := Except.ok.inj (hdefault.symm.trans hdefault')
  obtain ⟨endpoints, hlists, hvalid, hnodup, rfl⟩ := prepare_eq_ok_iff.mp hg
  refine ⟨rfl, _, prepare_eq_ok_iff.mpr ⟨endpoints, hlists, hvalid, hnodup, rfl⟩, ?_⟩
  rw [files, files, List.forall₂_map_left_iff, List.forall₂_map_right_iff]
  exact List.forall₂_same.mpr fun part _ =>
    wraps_file hdraft (hname name rfl) (Client.isIdentifier_of_valid hvalid) _ _ part

/-- A client of two formats, with a path and parameters that have braces, quotes, a backslash and a
line end. -/
theorem namespace_wraps_and_indents_shop :
    (Config.Draft.mk ["xml", "json"] none (some "json") (some "v\x7b1")).build =
        .ok ⟨[.xml, .json], none, .json, some "v\x7b1"⟩ ∧
      ∃ g g', prepare ⟨[.xml, .json], none, .json, some "v\x7b1"⟩
          [.listed [⟨"find", .get, "items/{id}\"\x7d\n", ["\x7d\"\x7b", "\\"]⟩]] = .ok g ∧
        prepare ⟨[.xml, .json], some "shop", .json, some "v\x7b1"⟩
          [.listed [⟨"find", .get, "items/{id}\"\x7d\n", ["\x7d\"\x7b", "\\"]⟩]] = .ok g' ∧
        g.files.length = 3 ∧ List.Forall₂ (Wraps .json "shop") g.files g'.files := by
  have hc : (Config.Draft.mk ["xml", "json"] none (some "json") (some "v\x7b1")).build =
      .ok ⟨[.xml, .json], none, .json, some "v\x7b1"⟩ := by rfl
  have hc' : (Config.Draft.mk ["xml", "json"] (some "shop") (some "json") (some "v\x7b1")).build =
      .ok ⟨[.xml, .json], some "shop", .json, some "v\x7b1"⟩ := by rfl
  have hwraps : ∀ g, prepare ⟨[.xml, .json], none, .json, some "v\x7b1"⟩
      [.listed [⟨"find", .get, "items/{id}\"\x7d\n", ["\x7d\"\x7b", "\\"]⟩]] = .ok g → _ :=
    fun g hg => namespace_wraps_and_indents rfl hc hc' hg
  obtain ⟨-, g', hg', hfiles⟩ := hwraps _ rfl
  exact ⟨hc, _, g', rfl, hg', rfl, hfiles⟩

end Generation

end ApiClient
