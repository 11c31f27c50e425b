import ApiClient.Endpoint
import ApiClient.Generation.SourceFile

/-!
# The generated client

* `Client.constants`: the version and the format of every request;
* `Client.constructor`, `Client.function`, `Client.dispatch`: making a client, a function for an
  endpoint, and what these functions share;
* `Client.code`, `Client.file`: the whole module.
-/

namespace ApiClient.Client

/-- The literal of a text. -/
def literal (s : String) : String := Text.Quoted.quote s

/-- The version and the format of every request. -/
def constants (config : Config) : List Code :=
  let version :=
    match config.defaultVersion? with
    | none => "None"
    | some version => "Some(" ++ literal version ++ ")"
  [ .line ("const VERSION: Option<&str> = " ++ version ++ ";"),
    .line ("const FORMAT: Format = Format::" ++ config.defaultFormat.parserName ++ ";") ]

/-- The type of a client. -/
def declaration : Code :=
  .braces "pub struct Api<H: HttpClient> " [.line "base_url: String,", .line "http: H,"]

/-- Makes a client. -/
def constructor : Code :=
  .braces "pub fn new(base_url: impl Into<String>, http: H) -> Self "
    [.braces "Self " [.line "base_url: base_url.into(),", .line "http,"]]

/-- The function of an endpoint. -/
def function (e : Endpoint) : Code :=
  .braces ("pub fn " ++ e.name ++ "(&self, params: &[(&str, &str)]) -> Result<Document> ")
    [ .block "const ROUTE: Route<'static> = Route "
        [ .line ("name: " ++ literal e.name ++ ","),
          .line ("method: Method::" ++ e.method.variant ++ ","),
          .line ("path: " ++ literal e.path ++ ","),
          .line ("params: &[" ++ ", ".intercalate (e.params.map literal) ++ "],") ]
        ";",
      .line "self.call(&ROUTE, params)" ]

/-- The path from the client to the function that parses responses: beside the client's module, or
beside the module around it. -/
def parserPath (config : Config) : List String :=
  let parser := SourceFile.parserModule config.defaultFormat
  match config.moduleName? with
  | none => ["super", parser, "parse"]
  | some name => ["super", "super", parser, name, "parse"]

/-- What the functions of all endpoints share: sending a request and parsing the response. -/
def dispatch (config : Config) : Code :=
  .braces "fn call(&self, route: &Route, params: &[(&str, &str)]) -> Result<Document> "
    [ .line "let request = route.request(&self.base_url, VERSION, FORMAT, params)?;",
      .line "let response = request.send(&self.http)?;",
      .line ("::".intercalate (parserPath config) ++ "(&response.body)") ]

/-- The contents of the client's module. -/
def code (config : Config) (endpoints : List Endpoint) : List Code :=
  [ .line "use clientgen::runtime::\x7bHttpClient, Route\x7d;",
    .line "use clientgen::\x7bDocument, Format, Method, Result\x7d;",
    .blank ] ++
  constants config ++
  [ .blank,
    declaration,
    .blank,
    .braces "impl<H: HttpClient> Api<H> "
      (constructor :: Code.spaced (endpoints.map function ++ [dispatch config])) ]

/-- The client's file. -/
def file (config : Config) (endpoints : List Endpoint) : SourceFile :=
  .ofCode config SourceFile.clientModule (code config endpoints)

end ApiClient.Client
