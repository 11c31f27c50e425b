import ApiClient.Generation.SourceFile

/-!
# The generated parsers

* `ParserModule.code`, `ParserModule.file`: the module that parses the responses of a format.
-/

namespace ApiClient.ParserModule

/-- The contents of a parser's module. -/
def code (format : Format) : List Code :=
  [ .line ("use clientgen::parser::\x7bParser, " ++ format.parserName ++ "\x7d;"),
    .line "use clientgen::\x7bDocument, Result\x7d;",
    .blank,
    .line ("/// Parses a raw " ++ format.tag ++ " response body."),
    .braces "pub fn parse(raw: &str) -> Result<Document> "
      [.line (format.parserName ++ ".parse(raw)")] ]

/-- A parser's file. -/
def file (config : Config) (format : Format) : SourceFile :=
  .ofCode config (SourceFile.parserModule format) (code format)

end ApiClient.ParserModule
