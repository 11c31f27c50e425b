import ApiClient.Text.ControlSequence

/-!
# Options of the command line

* `Setting`, `Switch`: options with a value and options without one;
* `Usage`: what can be wrong with the arguments, with its wording;
* `Options`: the options that have been given;
* `Argument.read`: what kind of argument a text is;
* `Options.parse`: the options that arguments give.

A value that stands in an argument of its own is taken up when the next option begins or the
arguments end, and so are the faults that it brings.
-/

namespace ApiClient.CommandLine

/-! ## Names -/

/-- An option with a value. -/
inductive Setting where
  | input
  | config
  | responseType
  | moduleName
  | defaultFormat
  | defaultVersion
  | outputRoot
  deriving DecidableEq, Repr, Inhabited

namespace Setting

/-- Every option with a value. -/
def all : List Setting :=
  [.input, .config, .responseType, .moduleName, .defaultFormat, .defaultVersion, .outputRoot]

/-- The name behind two hyphens. -/
def name : Setting → String
  | .input => "input"
  | .config => "config"
  | .responseType => "response-type"
  | .moduleName => "namespace"
  | .defaultFormat => "default-format"
  | .defaultVersion => "default-version"
  | .outputRoot => "output-root"

/-- The letter behind one hyphen. -/
def letter? : Setting → Option Char
  | .input => some 'i'
  | .config => some 'c'
  | .responseType => some 'r'
  | .moduleName => some 'n'
  | _ => none

/-- What the value is called. -/
def valueName : Setting → String
  | .input => "GLOB"
  | .config => "CONFIG"
  | .responseType => "FORMAT"
  | .moduleName => "NAMESPACE"
  | .defaultFormat => "FORMAT"
  | .defaultVersion => "VERSION"
  | .outputRoot => "OUTPUT_ROOT"

/-- The option as messages show it. -/
def display (s : Setting) : String := "--" ++ s.name ++ " <" ++ s.valueName ++ ">"

/-- Whether the value is a path, which is never empty. -/
def isPath : Setting → Bool
  | .config | .outputRoot => true
  | _ => false

end Setting

/-- An option without a value. -/
inductive Switch where
  | dryRun
  | version
  | help
  deriving DecidableEq, Repr, Inhabited

namespace Switch

/-- Every option without a value. -/
def all : List Switch := [.dryRun, .version, .help]

/-- The name behind two hyphens. -/
def name : Switch → String
  | .dryRun => "dry-run"
  | .version => "version"
  | .help => "help"

/-- The letter behind one hyphen. -/
def letter? : Switch → Option Char
  | .dryRun => none
  | .version => some 'V'
  | .help => some 'h'

/-- The option as messages show it. -/
def display (s : Switch) : String := "--" ++ s.name

end Switch

/-! ## Faults -/

/-- What can be wrong with the arguments. -/
inductive Usage where
  | noInput
  | noValue (setting : Setting)
  | unexpected (argument : String)
  | repeated (option : String)
  | unneeded (value option : String)
  deriving DecidableEq, Repr, Inhabited

/-- The message about a fault. It shows what was given without control sequences. -/
def Usage.message : Usage → String
  | .noInput => "error: the following required arguments were not provided:"
  | .noValue setting =>
    "error: a value is required for '" ++ setting.display ++ "' but none was supplied"
  | .unexpected argument =>
    "error: unexpected argument '" ++ Text.ControlSequence.strip argument ++ "' found"
  | .repeated option => "error: the argument '" ++ option ++ "' cannot be used multiple times"
  | .unneeded value option =>
    "error: unexpected value '" ++ Text.ControlSequence.strip value ++ "' for '" ++ option ++
      "' found; no more were expected"

/-! ## Options -/

/-- The options that have been given. -/
structure Options where
  /-- The globs of the descriptions, in order. -/
  inputs : List String := []
  config? : Option String := none
  responseTypes : List String := []
  moduleName? : Option String := none
  defaultFormat? : Option String := none
  defaultVersion? : Option String := none
  outputRoot? : Option String := none
  dryRun : Bool := false
  deriving DecidableEq, Repr, Inhabited

namespace Options

/-- Sets what can be set once. -/
def once (setting : Setting) (former? : Option String) (options : Options) : Except Usage Options :=
  if former?.isSome then .error (.repeated setting.display) else .ok options

/-- Gives a setting a value. -/
def set (o : Options) (setting : Setting) (value : String) : Except Usage Options := do
  let o ←
    match setting with
    | .input => .ok { o with inputs := o.inputs ++ [value] }
    | .responseType => .ok { o with responseTypes := o.responseTypes ++ [value] }
    | .config => once setting o.config? { o with config? := some value }
    | .moduleName => once setting o.moduleName? { o with moduleName? := some value }
    | .defaultFormat => once setting o.defaultFormat? { o with defaultFormat? := some value }
    | .defaultVersion => once setting o.defaultVersion? { o with defaultVersion? := some value }
    | .outputRoot => once setting o.outputRoot? { o with outputRoot? := some value }
  if setting.isPath && value.isEmpty then throw (.noValue setting) else return o

end Options

/-! ## Arguments -/

/-- What kind of argument a text is. -/
inductive Argument where
  /-- Two hyphens and nothing else: no option comes behind them. -/
  | escape
  /-- A name behind two hyphens, and what follows an equals sign. -/
  | long (name : String) (value? : Option String)
  /-- Letters behind one hyphen. -/
  | short (letters : List Char)
  /-- Anything else. -/
  | plain
  deriving DecidableEq, Repr, Inhabited

/-- The kind of an argument. -/
def Argument.read (text : String) : Argument :=
  match text.toList with
  | ['-', '-'] => .escape
  | '-' :: '-' :: s =>
    let name := String.ofList (s.takeWhile (· != '='))
    match s.dropWhile (· != '=') with
    | [] => .long name none
    | _ :: value => .long name (some (String.ofList value))
  | ['-'] => .plain
  | '-' :: s => .short s
  | _ => .plain

/-! ## Parsing -/

/-- Why parsing ends before all arguments are read. -/
inductive Stop where
  | usage (fault : Usage)
  | version
  | help
  deriving DecidableEq, Repr, Inhabited

/-- Arguments that have been read in part. -/
structure Parsing where
  options : Options := {}
  /-- The setting that was named last, with its value if that has come, until it is taken up. -/
  pending? : Option (Setting × Option String) := none
  deriving DecidableEq, Repr, Inhabited

namespace Parsing

/-- Takes up the setting that was named last. -/
def settle (p : Parsing) : Except Stop Parsing :=
  match p.pending? with
  | none => .ok p
  | some (setting, none) => .error (.usage (.noValue setting))
  | some (setting, some value) => do
    let options ← (p.options.set setting value).mapError .usage
    return { options }

/-- Reads a setting whose value, if it has come, is part of the same argument. -/
def setting (p : Parsing) (setting : Setting) (value? : Option String) : Except Stop Parsing := do
  let p ← p.settle
  match value? with
  | none => return { p with pending? := some (setting, none) }
  | some value =>
    let options ← (p.options.set setting value).mapError .usage
    return { p with options }

/-- Reads a switch. -/
def switch (p : Parsing) (switch : Switch) : Except Stop Parsing := do
  let p ← p.settle
  match switch with
  | .version => throw .version
  | .help => throw .help
  | .dryRun =>
    if p.options.dryRun then throw (.usage (.repeated switch.display))
    else return { p with options := { p.options with dryRun := true } }

/-- Reads an option behind two hyphens. -/
def long (p : Parsing) (name : String) (value? : Option String) : Except Stop Parsing :=
  match Setting.all.find? (·.name == name), Switch.all.find? (·.name == name), value? with
  | some setting, _, value? => p.setting setting value?
  | none, some switch, none => p.switch switch
  | none, some switch, some value => .error (.usage (.unneeded value switch.display))
  | none, none, _ => .error (.usage (.unexpected ("--" ++ name)))

/-- The value in the same argument, behind the letter of a setting. An equals sign is no part of it.
-/
def attached : List Char → Option String
  | [] => none
  | '=' :: value => some (String.ofList value)
  | value => some (String.ofList value)

/-- Reads letters behind one hyphen, up to the first that needs a value. -/
def short (p : Parsing) : List Char → Except Stop Parsing
  | [] => .ok p
  | c :: rest =>
    match Setting.all.find? (·.letter? == some c), Switch.all.find? (·.letter? == some c) with
    | some setting, _ => p.setting setting (attached rest)
    | none, some switch => do
      let p ← p.switch switch
      p.short rest
    | none, none => .error (.usage (.unexpected ("-" ++ c.toString)))

/-- Reads an argument that is no option: the value of a setting that waits for one. -/
def value (p : Parsing) (text : String) : Except Stop Parsing :=
  match p.pending? with
  | some (setting, none) => .ok { p with pending? := some (setting, some text) }
  | _ => .error (.usage (.unexpected text))

/-- Reads arguments one after the other. -/
def readAll : Parsing → List String → Except Stop Parsing
  | p, [] => .ok p
  | p, text :: rest =>
    match Argument.read text with
    | .escape =>
      match rest with
      | [] => .ok p
      | text :: _ => .error (.usage (.unexpected text))
    | .long name value? => do
      let p ← p.long name value?
      readAll p rest
    | .short letters => do
      let p ← p.short letters
      readAll p rest
    | .plain => do
      let p ← p.value text
      readAll p rest

end Parsing

/-- The options that arguments give. There has to be an input. -/
def Options.parse (arguments : List String) : Except Stop Options := do
  let p ← Parsing.readAll {} arguments
  let p ← p.settle
  if p.options.inputs.isEmpty then throw (.usage .noInput) else return p.options

end ApiClient.CommandLine
