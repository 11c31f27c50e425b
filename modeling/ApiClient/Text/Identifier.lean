/-!
# Identifiers of the generated code

* `keywords`: the words that the target language keeps for itself;
* `isIdentifier`: the names that can stand for an item without further ado.
-/

namespace ApiClient.Text

/-- Words that are no names in Rust, in use or set aside. -/
def keywords : List String :=
  [ "as", "async", "await", "break", "const", "continue", "crate", "dyn", "else", "enum", "extern",
    "false", "fn", "for", "if", "impl", "in", "let", "loop", "match", "mod", "move", "mut", "pub",
    "ref", "return", "self", "Self", "static", "struct", "super", "trait", "true", "type", "unsafe",
    "use", "where", "while", "abstract", "become", "box", "do", "final", "gen", "macro", "override",
    "priv", "try", "typeof", "unsized", "virtual", "yield" ]

/-- A character that may open an identifier. -/
def opensIdentifier (c : Char) : Bool := c == '_' || c.isAlpha

/-- A character that may continue an identifier. -/
def continuesIdentifier (c : Char) : Bool := c == '_' || c.isAlphanum

/-- An identifier is an ASCII name, not the lone underscore, and no keyword. -/
def isIdentifier (name : String) : Bool :=
  match name.toList with
  | [] => false
  | c :: rest =>
    opensIdentifier c && name != "_" && rest.all continuesIdentifier && !keywords.contains name

end ApiClient.Text
