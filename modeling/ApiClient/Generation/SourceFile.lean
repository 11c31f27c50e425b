import ApiClient.Code
import ApiClient.Config

/-!
# Generated files

* `SourceFile`: a file with its name and contents;
* `SourceFile.parserModule`, `SourceFile.clientModule`: the modules that are generated;
* `SourceFile.wrap`: what every file has around its contents;
* `SourceFile.ofCode`: the file of a module with the given contents.
-/

namespace ApiClient

/-- A generated file. -/
structure SourceFile where
  name : String
  contents : String
  deriving DecidableEq, Repr, Inhabited

namespace SourceFile

/-- The module of the client. -/
def clientModule : String := "api"

/-- The module of the parser for a format. -/
def parserModule (format : Format) : String := format.tag ++ "_response_parser"

/-- The first line of every file. -/
def header : String := "// Generated by clientgen. Do not edit."

/-- The header, and the contents in a module of their own if the configuration names one. -/
def wrap (config : Config) (contents : List Code) : List Code :=
  [.line header, .blank] ++
    match config.moduleName? with
    | none => contents
    | some name => [.braces ("pub mod " ++ name ++ " ") contents]

/-- The file of a module. -/
def ofCode (config : Config) (moduleName : String) (contents : List Code) : SourceFile where
  name := moduleName ++ ".rs"
  contents := Code.render (wrap config contents)

end SourceFile

end ApiClient
