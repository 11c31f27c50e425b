import ApiClient.CommandLine.Options
import ApiClient.Config.Reading
import ApiClient.Output

/-!
# The command line

* `CommandLine.Report`: what a run prints, its exit code and the storage behind it;
* `CommandLine.config`: the configuration of a file with the options over it;
* `CommandLine.generate`: one execution, from the configuration to the files;
* `CommandLine.run`: a run of the program on its arguments.
-/

namespace ApiClient.CommandLine

/-- What a run of the program leaves. -/
structure Report where
  exitCode : Nat
  out : String
  err : String
  storage : Storage
  deriving Repr, Inhabited

/-! ## One execution -/

/-- The folder for generated files if no other is asked for. -/
def defaultOutputRoot : String := "generated"

/-- What the options say about the configuration. -/
def Options.draft (o : Options) : Config.Draft where
  responseTypes := o.responseTypes
  moduleName? := o.moduleName?
  defaultFormat? := o.defaultFormat?
  defaultVersion? := o.defaultVersion?

/-- The draft in a configuration file. -/
def readDraft (t : Storage) (path : String) : Except Failure Config.Draft := do
  let content ← (t.readBytes path).mapError (.configFile path)
  (Config.Draft.parseBytes content).mapError (.configText path)

/-- The configuration of a file, if there is one, with the options over it. -/
def config (t : Storage) (o : Options) : Except Failure Config := do
  let base ←
    match o.config? with
    | none => pure {}
    | some path => readDraft t path
  (Config.Draft.build (base.merge o.draft)).mapError .config

/-- The sources that globs name, in order. -/
def sources (t : Storage) : List String → Except Failure (List Source)
  | [] => .ok []
  | glob :: rest => do
    let files ← (Glob.load t glob).mapError .glob
    let more ← sources t rest
    return .loaded files :: more

/-- The place that files are written to: the console in a dry run, and otherwise the folder that is
asked for. -/
def output (t : Storage) (o : Options) : Except Failure Output × Storage :=
  if o.dryRun then (.ok (.console Console.defaultHeader), t)
  else
    let (folder, t) := Folder.claim t (o.outputRoot?.getD defaultOutputRoot)
    ((folder.map Output.folder).mapError .folder, t)

/-- Executes what the options ask for. The configuration comes first, then the sources, then the
output. -/
def generate (t : Storage) (o : Options) : Outcome Failure Workspace :=
  let read : Except Failure (Config × List Source) := do
    let config ← config t o
    let sources ← sources t o.inputs
    return (config, sources)
  match read with
  | .error failure => { state := { storage := t }, failure? := some failure }
  | .ok (config, sources) =>
    match output t o with
    | (.error failure, storage) => { state := { storage }, failure? := some failure }
    | (.ok output, storage) =>
      Workspace.execute config sources [0] { outputs := [output], storage }

/-! ## A run -/

/-- The name of the program with its version. -/
def versionLine : String := "clientgen 1.0.0\n"

/-- How the program is used. -/
def helpText : String := "Usage: clientgen [OPTIONS] --input <GLOB>\n"

/-- A text with every line behind the first one moved in. -/
def hanging (text : String) : String :=
  String.ofList (text.toList.flatMap fun c => if c = '\n' then "\n    ".toList else [c])

/-- The report about a failure, with its cause in a paragraph of its own. -/
def failureReport (f : Failure) : String :=
  match f.messages with
  | [] => "Error: \n"
  | text :: causes =>
    let cause (text : String) : String := "\n\nCaused by:\n    " ++ hanging text
    "Error: " ++ text ++ String.join (causes.map cause) ++ "\n"

/-- A run of the program on its arguments. -/
def run (t : Storage) (arguments : List String) : Report :=
  match Options.parse arguments with
  | .error (.usage fault) =>
    { exitCode := 2, out := "", err := fault.message ++ "\n", storage := t }
  | .error .version => { exitCode := 0, out := versionLine, err := "", storage := t }
  | .error .help => { exitCode := 0, out := helpText, err := "", storage := t }
  | .ok options =>
    let outcome := generate t options
    let exitCode := if outcome.failure?.isSome then 1 else 0
    let err := (outcome.failure?.map failureReport).getD ""
    { exitCode, out := outcome.state.shown.text, err, storage := outcome.state.storage }

end ApiClient.CommandLine
