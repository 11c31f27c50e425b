import ApiClient.Generation.ParserModule
import ApiClient.Proofs.Generation.Modules

/-!
# The parser that a client calls

A line of a client's file that begins outside of its module is a call of a function there.

* `call?`, `SourceFile.calls`: the function that a line calls, and those that a file calls;
* `exported?`, `SourceFile.exports`: the function that a line defines for other modules, and those
  that a file defines, with their paths;
* `resolve`: what a path means inside of modules;
* `calls_file`: the file of a client calls one function, that of its parser;
* `exports_file`: the file of a parser defines one function;
* `resolve_parserPath`: the function of the client's parser is the one that is called.
-/

namespace ApiClient

/-- The path of the function that a line calls, if it starts from the module around. -/
def Client.call? (line : List Char) : Option String :=
  let text := line.dropWhile (· == ' ')
  if "super::".toList.isPrefixOf text then some (word '(' text) else none

/-- The functions that a file calls outside of itself, each with the modules around the call. -/
def SourceFile.calls (file : SourceFile) : List (List String × String) := file.read Client.call?

/-- The function that a line defines for other modules, with the indentation of the line. -/
def ParserModule.exported? (line : List Char) : Option (Nat × String) :=
  let text := line.dropWhile (· == ' ')
  if "pub fn ".toList.isPrefixOf text then
    some (spacesOf line, Client.word '(' (text.drop "pub fn ".length))
  else none

/-- The functions that a file defines for other modules, with their paths. Such a function stands
directly in its module, so that inside of the file there is one step of indentation for each module
around it. -/
def SourceFile.exports (file : SourceFile) : List (List String) :=
  (file.read ParserModule.exported?).filterMap fun p =>
    if p.2.1 + 4 = 4 * p.1.length then some (p.1 ++ [p.2.2]) else none

/-- The path from the outermost module to what a path means inside of modules. Each `super` goes to
the module around. -/
def resolve : List String → List String → Option (List String)
  | modules, "super" :: path => if modules = [] then none else resolve modules.dropLast path
  | modules, path => some (modules ++ path)

namespace Client

open Text

theorem call?_indented (depth : Nat) (text : List Char) :
    call? (Code.indented depth text) = call? text := by
  rw [call?, Code.dropWhile_indented, call?]

/-! ## Lines that call nothing -/

theorem call?_of_head {c : Char} (hc : c ∉ [' ', 's']) (rest : List Char) :
    call? (c :: rest) = none := by
  rw [List.mem_cons, List.mem_singleton, not_or] at hc
  have hdrop : (c :: rest).dropWhile (· == ' ') = c :: rest :=
    List.dropWhile_cons_of_neg (by simpa using hc.1)
  have hsuper : ('s' == c) = false := by simpa using Ne.symm hc.2
  have hbegins : "super::".toList.isPrefixOf (c :: rest) = false := by
    rw [show "super::".toList = 's' :: "uper::".toList from rfl, List.isPrefixOf, hsuper,
      Bool.false_and]
  rw [call?, hdrop]
  exact if_neg (by rw [hbegins]; exact Bool.false_ne_true)

theorem call?_other {s : String} {c : Char} {rest : List Char} (hs : s = String.ofList (c :: rest))
    (hc : c ∉ [' ', 's']) (t : List Char) : call? (s.toList ++ t) = none := by
  rw [hs, String.toList_ofList, List.cons_append, call?_of_head hc]

theorem call?_fixed {s : String} {c : Char} {rest : List Char} (hs : s = String.ofList (c :: rest))
    (hc : c ∉ [' ', 's']) : call? s.toList = none := by
  rw [hs, String.toList_ofList, call?_of_head hc]

theorem call?_between {before s after : String} {c : Char} {rest : List Char}
    (hs : before = String.ofList (c :: rest)) (hc : c ∉ [' ', 's']) :
    call? (before ++ s ++ after).toList = none := by
  rw [String.append_assoc, String.toList_append, call?_other hs hc]

/-! ## The one line that calls something -/

theorem call?_path {config : Config}
    (hname : ∀ name ∈ config.moduleName?, isIdentifier name = true) :
    call? ("::".intercalate (parserPath config) ++ "(&response.body)").toList =
      some ("::".intercalate (parserPath config)) := by
  have hparen : '(' ∉ ("::".intercalate (parserPath config)).toList :=
    not_mem_joined (by decide) (not_mem_parserPath hname (by decide))
  have hword : word '(' ("::".intercalate (parserPath config) ++ "(&response.body)").toList =
      "::".intercalate (parserPath config) := by
    have hopening : "(&response.body)".toList = '(' :: "&response.body)".toList := by rfl
    rw [String.toList_append, hopening, word_append hparen, String.ofList_toList]
  have hsuper : ∃ rest, ("::".intercalate (parserPath config) ++ "(&response.body)").toList =
      "super::".toList ++ rest := by
    rw [String.toList_append, String.toList_intercalate, parserPath]
    cases config.moduleName? <;> exact ⟨_, rfl⟩
  obtain ⟨rest, hrest⟩ := hsuper
  rw [hrest] at hword ⊢
  exact congrArg some hword

variable {depth : Nat} {code : List Code}

/-- What the lines of code call. -/
def called (depth : Nat) (code : List Code) : List String := Code.gathered call? depth code

theorem called_append (first second : List Code) :
    called depth (first ++ second) = called depth first ++ called depth second :=
  Code.gathered_append first second

theorem called_line {text : String} (h : call? text.toList = none) :
    called depth (.line text :: code) = called depth code := by
  rw [called, Code.gathered_line call?_indented, h]
  rfl

theorem called_block {head tail : String} {body : List Code}
    (h : call? (head.toList ++ ['{']) = none) :
    called depth (.block head body tail :: code) =
      called (depth + 1) body ++ called depth code := by
  rw [called, Code.gathered_block call?_indented (fun s => call?_of_head (by decide) s), h]
  rfl

theorem called_function (e : Endpoint) : called depth (function e :: code) = called depth code := by
  have hhead : call? (("pub fn " ++ e.name ++
      "(&self, params: &[(&str, &str)]) -> Result<Document> ").toList ++ ['{']) = none := by
    rw [String.append_assoc, String.toList_append, List.append_assoc]
    exact call?_other rfl (by decide) _
  have hcall : call? "self.call(&ROUTE, params)".toList = none := rfl
  rw [function, Code.braces, called_block hhead, called_block (call?_other rfl (by decide) _),
    called_line (call?_between rfl (by decide)), called_line (call?_between rfl (by decide)),
    called_line (call?_between rfl (by decide)), called_line (call?_between rfl (by decide)),
    called_line hcall]
  rfl

theorem called_functions (endpoints : List Endpoint) :
    called depth (endpoints.map function ++ code) = called depth code := by
  induction endpoints with
  | nil => rfl
  | cons e endpoints ih => rw [List.map_cons, List.cons_append, called_function, ih]

theorem called_dispatch {config : Config}
    (hname : ∀ name ∈ config.moduleName?, isIdentifier name = true) :
    called depth [dispatch config] = ["::".intercalate (parserPath config)] := by
  rw [dispatch, Code.braces, called_block (call?_other rfl (by decide) _),
    called_line (call?_fixed rfl (by decide)), called_line (call?_fixed rfl (by decide)), called,
    Code.gathered_line call?_indented, call?_path hname]
  rfl

theorem called_constants (config : Config) : called depth (constants config) = [] := by
  rw [constants, called_line (call?_between rfl (by decide)),
    called_line (call?_between rfl (by decide))]
  rfl

theorem called_constructor : called depth (constructor :: code) = called depth code := by
  rw [constructor, Code.braces, called_block (call?_other rfl (by decide) _), Code.braces,
    called_block (call?_other rfl (by decide) _), called_line (call?_fixed rfl (by decide)),
    called_line (call?_fixed rfl (by decide))]
  rfl

theorem called_declaration : called depth (declaration :: code) = called depth code := by
  rw [declaration, Code.braces, called_block (call?_other rfl (by decide) _),
    called_line (call?_fixed rfl (by decide)), called_line (call?_fixed rfl (by decide))]
  rfl

theorem skipsFrame_call? : SkipsFrame call? where
  header := call?_fixed rfl (by decide)
  blank := rfl
  opening name := by
    rw [String.append_assoc, String.toList_append, List.append_assoc]
    exact call?_other rfl (by decide) _
  closing := call?_of_head (by decide) _

section Files

variable {config : Config} (hname : ∀ name ∈ config.moduleName?, isIdentifier name = true)
include hname

theorem called_code (endpoints : List Endpoint) :
    called depth (Client.code config endpoints) = ["::".intercalate (parserPath config)] := by
  have hspaced : called (depth + 1) (Code.spaced (endpoints.map function ++ [dispatch config])) =
      ["::".intercalate (parserPath config)] := by
    rw [called, Code.gathered_spaced rfl, ← called, called_functions, called_dispatch hname]
  have hblank : ∀ code, called depth (.blank :: code) = called depth code := fun _ =>
    Code.gathered_blank rfl
  rw [Client.code, called_append, called_append, called_constants,
    called_line (call?_fixed rfl (by decide)), called_line (call?_fixed rfl (by decide)),
    hblank, hblank, called_declaration, hblank, Code.braces,
    called_block (call?_other rfl (by decide) _), called_constructor, hspaced]
  rfl

/-- A client calls its parser and nothing else outside of its module. -/
theorem calls_file {endpoints : List Endpoint}
    (h : ∀ e ∈ endpoints, isIdentifier e.name = true) :
    (file config endpoints).calls =
      [("api" :: config.moduleName?.toList, "::".intercalate (parserPath config))] := by
  have hopened : ∀ depth name, .moduleName name ∉ told depth (Client.code config endpoints) := by
    intro depth name hmem
    rw [told_code config h] at hmem
    simp [toldOf] at hmem
  rw [SourceFile.calls, file, read_ofCode skipsFrame_call? hname
    (fun depth => opened?_of_told (hopened depth)) (nesting_wrap config endpoints)
    (oneLined_code hname h) (by decide), ← called, called_code hname]
  rfl

end Files

end Client

/-! ## The function of a parser -/

/-- What a file defines stands in the module of the file. -/
theorem SourceFile.head?_of_mem_exports {file : SourceFile} {path : List String}
    (h : path ∈ file.exports) : path.head? = some file.moduleName := by
  obtain ⟨found, hfound, hpath⟩ := List.mem_filterMap.mp h
  obtain ⟨inner, -, rfl⟩ := List.mem_map.mp hfound
  rw [Option.ite_none_right_eq_some, Option.some.injEq] at hpath
  rw [← hpath.2, List.cons_append, List.head?_cons]

namespace ParserModule

theorem told_code (depth : Nat) (format : Format) :
    Client.told depth (code format) = [.function "parse"] := by
  have hparser : Client.readLine?
      ("use clientgen::parser::\x7bParser, " ++ format.parserName ++ "\x7d;").toList = none := by
    cases format <;> decide
  have hnames : Client.readLine? "use clientgen::\x7bDocument, Result\x7d;".toList = none :=
    Client.readLine?_other rfl (by decide)
  have hcomment : Client.readLine?
      ("/// Parses a raw " ++ format.tag ++ " response body.").toList = none := by
    cases format <;> decide
  have hhead : Client.readLine? ("pub fn parse(raw: &str) -> Result<Document> ".toList ++ ['{']) =
      some (.function "parse") :=
    Client.readLine?_fixed rfl rfl (List.mem_of_getElem? (i := 5) rfl) (by decide) _
  have hbody : Client.readLine? (format.parserName ++ ".parse(raw)").toList = none := by
    cases format <;> decide
  rw [code, Client.told_line, hparser, Client.told_line, hnames, Client.told_blank,
    Client.told_line, hcomment, Code.braces, Client.told_block, hhead, Client.told_line, hbody]
  rfl

theorem skipsFrame_exported? : SkipsFrame exported? where
  header := by decide
  blank := rfl
  opening name := by
    rw [String.append_assoc, String.toList_append]
    rfl
  closing := rfl

theorem oneLined_code (format : Format) : Code.OneLinedAll (code format) := by
  have hparser : '\n' ∉ format.parserName.toList := by
    cases format <;> decide
  have htag : '\n' ∉ format.tag.toList := by
    cases format <;> decide
  have hbody : '\n' ∉ (format.parserName ++ ".parse(raw)").toList := by
    cases format <;> decide
  exact ⟨Client.not_mem_between rfl rfl (by decide) hparser, Code.oneLined_line rfl (by decide),
    trivial, Client.not_mem_between rfl rfl (by decide) htag,
    Code.oneLined_block rfl rfl (by decide) ⟨hbody, trivial⟩, trivial⟩

theorem nesting_wrap (config : Config) (format : Format) :
    Code.nestingOfAll (SourceFile.wrap config (code format)) ≤ Indented.maxDepth := by
  rw [SourceFile.wrap]
  cases config.moduleName? <;> exact Nat.le_of_ble_eq_true rfl

/-- A parser's file defines one function, in the module that the configuration names. -/
theorem exports_file {config : Config}
    (hname : ∀ name ∈ config.moduleName?, Text.isIdentifier name = true) (format : Format) :
    (file config format).exports =
      [SourceFile.parserModule format :: (config.moduleName?.toList ++ ["parse"])] := by
  have hopened : ∀ depth name, .moduleName name ∉ Client.told depth (code format) := by
    intro depth name
    rw [told_code]
    simp
  have hdot : '.' ∉ (SourceFile.parserModule format).toList := by
    cases format <;> decide
  rw [SourceFile.exports, file, read_ofCode skipsFrame_exported? hname
    (fun depth => opened?_of_told (hopened depth)) (nesting_wrap config format)
    (oneLined_code format) hdot]
  cases config.moduleName? <;> cases format <;> rfl

end ParserModule

/-- The path in a client's file leads to the function of its parser. -/
theorem resolve_parserPath (config : Config) :
    resolve ("api" :: config.moduleName?.toList) (Client.parserPath config) =
      some (SourceFile.parserModule config.defaultFormat ::
        (config.moduleName?.toList ++ ["parse"])) := by
  rw [Client.parserPath]
  cases config.moduleName? <;> cases config.defaultFormat <;> rfl

end ApiClient
