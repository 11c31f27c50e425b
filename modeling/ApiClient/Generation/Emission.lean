import ApiClient.Generation.Client
import ApiClient.Generation.ParserModule

/-!
# Writing generated files

The steps that write a file, as the parts of the file issue them: what stands on one line is written
in several pieces, and every part changes the depth on its own.

* `line`, `blockStart`, `blockEnd`, `joined`: what the parts have in common;
* `constants`, `declaration`, `constructor`, `route`, `function`, `dispatch`: the parts of a client;
* `file`, `client`, `parserModule`: the files;
* `SourceFile.emit`: writing the steps of a file into a text.
-/

namespace ApiClient

namespace Emission

open Code (write newline)
open Indented (Step)

/-! ## What the parts have in common -/

/-- Writes one character. -/
def writeChar (c : Char) : Step := .step (.writeChar c)

/-- A whole line. -/
def line (text : String) : List Step := [write text, newline]

/-- Opens a block on the line that has begun. -/
def blockStart : List Step := [writeChar '{', .indent 1, newline]

/-- Closes a block on a line of its own. -/
def blockEnd : List Step := [.indent (-1), writeChar '}', newline]

/-- Texts with `separator` between each two. -/
def joined (separator : String) : List String → List Step
  | [] => []
  | first :: rest => write first :: rest.flatMap fun text => [write separator, write text]

/-! ## The parts of a client -/

/-- The version of every request, as it stands in its constant. -/
def version (config : Config) : List Step :=
  match config.defaultVersion? with
  | none => [write "None"]
  | some version => [write "Some(", write (Client.literal version), writeChar ')']

/-- The version and the format of every request. -/
def constants (config : Config) : List Step :=
  ([write "const VERSION: Option<&str> = "] ++ version config ++ line ";") ++
  ([write "const FORMAT: Format = Format::", write config.defaultFormat.parserName] ++ line ";")

/-- The type of a client. Its first line is written at once, so the depth changes behind it. -/
def declaration : List Step :=
  line "pub struct Api<H: HttpClient> \x7b" ++ [.indent 1] ++
    (line "base_url: String," ++ line "http: H,") ++
  blockEnd

/-- Makes a client. -/
def constructor : List Step :=
  [write "pub fn new(base_url: impl Into<String>, http: H) -> Self "] ++ blockStart ++
    ([write "Self "] ++ blockStart ++
      (line "base_url: base_url.into()," ++ line "http,") ++
    blockEnd) ++
  blockEnd

/-- The constant of an endpoint. Its last line has more than a brace, so the depth changes before
it. -/
def route (e : Endpoint) : List Step :=
  [write "const ROUTE: Route<'static> = Route "] ++ blockStart ++
    (([write "name: ", write (Client.literal e.name)] ++ line ",") ++
    ([write "method: Method::", write e.method.variant] ++ line ",") ++
    ([write "path: ", write (Client.literal e.path)] ++ line ",") ++
    ([write "params: &["] ++ joined ", " (e.params.map Client.literal) ++ line "],")) ++
  ([.indent (-1)] ++ line "\x7d;")

/-- The function of an endpoint. -/
def function (e : Endpoint) : List Step :=
  [write "pub fn ", write e.name,
    write "(&self, params: &[(&str, &str)]) -> Result<Document> "] ++ blockStart ++
    (route e ++ line "self.call(&ROUTE, params)") ++
  blockEnd

/-- What the functions of all endpoints share. -/
def dispatch (config : Config) : List Step :=
  [write "fn call(&self, route: &Route, params: &[(&str, &str)]) -> Result<Document> "] ++
  blockStart ++
    (line "let request = route.request(&self.base_url, VERSION, FORMAT, params)?;" ++
    line "let response = request.send(&self.http)?;" ++
    (joined "::" (Client.parserPath config) ++ line "(&response.body)")) ++
  blockEnd

/-! ## Files -/

/-- The header, and the contents in a module of their own if the configuration names one. -/
def file (config : Config) (contents : List Step) : List Step :=
  (line SourceFile.header ++ [newline]) ++
    match config.moduleName? with
    | none => contents
    | some name =>
      [write "pub mod ", write name, writeChar ' '] ++ blockStart ++ contents ++ blockEnd

/-- The functions of endpoints with an empty line before each. -/
def functions (endpoints : List Endpoint) : List Step :=
  endpoints.flatMap fun e => newline :: function e

/-- The client's file. -/
def client (config : Config) (endpoints : List Endpoint) : List Step :=
  file config <|
    (line "use clientgen::runtime::\x7bHttpClient, Route\x7d;" ++
      line "use clientgen::\x7bDocument, Format, Method, Result\x7d;" ++ [newline]) ++
    constants config ++
    ([newline] ++ declaration ++ [newline] ++
      ([write "impl<H: HttpClient> Api<H> "] ++ blockStart ++
        (constructor ++ functions endpoints ++ ([newline] ++ dispatch config)) ++
      blockEnd))

/-- A parser's file. -/
def parserModule (config : Config) (format : Format) : List Step :=
  file config <|
    ([write "use clientgen::parser::\x7bParser, ", write format.parserName] ++ line "\x7d;") ++
    line "use clientgen::\x7bDocument, Result\x7d;" ++
    [newline] ++
    ([write "/// Parses a raw ", write format.tag] ++ line " response body.") ++
    ([write "pub fn parse(raw: &str) -> Result<Document> "] ++ blockStart ++
      ([write format.parserName] ++ line ".parse(raw)") ++
    blockEnd)

end Emission

/-- The file that steps write into a text of its own, or the failure of one of them. -/
def SourceFile.emit (ε : Type) (moduleName : String) (steps : List Indented.Step) :
    Except ε SourceFile :=
  let outcome := Indented.performAll (Buffer.sink ε) Code.indentation steps { inner := {} }
  match outcome.failure? with
  | some fault => .error fault
  | none => .ok { name := moduleName ++ ".rs", contents := outcome.state.inner.text }

end ApiClient
