import Constify.Report.Json
import Constify.Report.Plain
import Constify.Run

/-!
# The command line

* `Request`, `UsageFault` : what the arguments ask for, and why they cannot be understood;
* `Request.ofArguments` : reads the arguments from left to right;
* `Outcome`, `execute` : what the program prints and its exit code.
-/

namespace Constify

inductive Format where
  | text
  | json
  deriving DecidableEq, Repr

inductive Request where
  | version
  | help
  | run (options : Options) (format : Format)
  deriving DecidableEq, Repr

/-- Why arguments cannot be understood. -/
inductive UsageFault where
  | unknown (argument : Text)
  | noValue (option : Text)
  | unexpectedValue (option : Text)
  | badValue (option value : Text)
  | repeated (option : Text)
  deriving DecidableEq, Repr

def UsageFault.message : UsageFault → Text
  | .unknown argument => "unexpected argument '".toList ++ argument ++ "' found".toList
  | .noValue option => "a value is required for '".toList ++ option ++ "'".toList
  | .unexpectedValue option => "unexpected value for '".toList ++ option ++ "'".toList
  | .badValue option value => "invalid value '".toList ++ value ++ "' for '".toList ++ option ++ "'".toList
  | .repeated option => "'".toList ++ option ++ "' cannot be used multiple times".toList

namespace Request

/-- The options that have been read so far. -/
structure Partial where
  root : Option Text := none
  settings : Option Text := none
  dryRun : Bool := false
  format : Option Format := none
  logLevel : Option Text := none

/-- The options that take a value. -/
inductive Valued where
  | settings
  | format
  | logLevel
  deriving DecidableEq, Repr

def Valued.name : Valued → Text
  | settings => "--config".toList
  | format => "--format".toList
  | logLevel => "--log-level".toList

/-- The levels that may be given for the log. The level does not change what a run does. -/
def logLevels : List Text :=
  ["trace".toList, "debug".toList, "info".toList, "warn".toList, "error".toList]

def Partial.set (p : Partial) (option : Valued) (value : Text) : Except UsageFault Partial :=
  match option with
  | .settings =>
    if p.settings.isSome then .error (.repeated option.name)
    else if value = [] then .error (.noValue option.name)
    else .ok { p with settings := some value }
  | .format =>
    if p.format.isSome then .error (.repeated option.name)
    else if value = "text".toList then .ok { p with format := some .text }
    else if value = "json".toList then .ok { p with format := some .json }
    else .error (.badValue option.name value)
  | .logLevel =>
    if p.logLevel.isSome then .error (.repeated option.name)
    else if logLevels.contains value then .ok { p with logLevel := some value }
    else .error (.badValue option.name value)

/-- The options with the directory to scan, of which there is at most one. -/
def Partial.setRoot (p : Partial) (value : Text) : Except UsageFault Partial :=
  if p.root.isSome then .error (.unknown value)
  else if value = [] then .error (.noValue "[ROOT]".toList)
  else .ok { p with root := some value }

def Partial.finish (p : Partial) : Request :=
  .run ⟨p.root, p.settings, p.dryRun⟩ (p.format.getD .text)

/-- An argument that starts with a dash and is not a single dash is no value. -/
def isOption (argument : Text) : Bool := argument.head? == some '-' && argument != ['-']

inductive Word where
  | separator
  | dryRun (value : Option Text)
  | version (value : Option Text)
  | help (value : Option Text)
  | valued (option : Valued) (value : Option Text)
  | unknown
  | directory

/-- A long option, by its name and the value that is written behind an equals sign. -/
def longOption (name : Text) (value : Option Text) : Word :=
  if name = "dry-run".toList then .dryRun value
  else if name = "version".toList then .version value
  else if name = "help".toList then .help value
  else if name = "config".toList then .valued .settings value
  else if name = "format".toList then .valued .format value
  else if name = "log-level".toList then .valued .logLevel value
  else .unknown

/-- What an argument is, before any separator. -/
def word (argument : Text) : Word :=
  match argument with
  | ['-', '-'] => .separator
  | '-' :: '-' :: option =>
    let name := option.takeWhile (· != '=')
    match option.drop name.length with
    | [] => longOption name none
    | _ :: value => longOption name (some value)
  | '-' :: 'V' :: _ => .version none
  | '-' :: 'h' :: _ => .help none
  | '-' :: _ :: _ => .unknown
  | _ => .directory

/-- Read the arguments that are left. -/
def ofRest (p : Partial) : List Text → Except UsageFault Request
  | [] => .ok p.finish
  | a :: rest =>
    match word a with
    | .separator => do return (← rest.foldlM Partial.setRoot p).finish
    | .dryRun (some _) | .version (some _) | .help (some _) => .error (.unexpectedValue a)
    | .dryRun none =>
      if p.dryRun then .error (.repeated a) else ofRest { p with dryRun := true } rest
    | .version none => .ok .version
    | .help none => .ok .help
    | .valued option (some value) => do ofRest (← p.set option value) rest
    | .valued option none =>
      match rest with
      | [] => .error (.noValue a)
      | value :: rest =>
        if isOption value then .error (.noValue a) else do ofRest (← p.set option value) rest
    | .unknown => .error (.unknown a)
    | .directory => do ofRest (← p.setRoot a) rest

/-- What the arguments ask for. Options may stand in any order, those with a value at most once; the
first fault counts, and a request for the version or the help ends the reading. -/
def ofArguments (arguments : List Text) : Except UsageFault Request := ofRest {} arguments

end Request

/-- What the program prints on its two streams, and its exit code. -/
structure Outcome where
  code : Nat
  output : Text
  errors : Text
  deriving DecidableEq, Repr

def versionText : Text := "tagsweep 0.1.0\n".toList

def usageText : Text :=
  ["Replace category string literals with references to a shared constant table",
    "",
    "Usage: tagsweep [OPTIONS] [ROOT]",
    "",
    "Arguments:",
    "  [ROOT]  Directory to scan (default: root from config, else src)",
    "",
    "Options:",
    "      --config <CONFIG>        Configuration file (default: ./tagsweep.toml if present)",
    "      --dry-run                Report what would change without writing files",
    "      --format <FORMAT>        Output format: text, json [default: text]",
    "      --log-level <LOG_LEVEL>  Log level: trace, debug, info, warn, error [default: warn]",
    "  -h, --help                   Print help",
    "  -V, --version                Print version"].flatMap fun line => line.toList ++ ['\n']

def usageCode : Nat := 2

def Outcome.ofResult (format : Format) : Except Failure Report → Outcome
  | .ok report =>
    match format with
    | .text => ⟨0, report.plain, []⟩
    | .json => ⟨0, report.json.document, []⟩
  | .error failure =>
    match format with
    | .text => ⟨failure.code, [], "error: ".toList ++ failure.message ++ ['\n']⟩
    | .json => ⟨failure.code, failure.json.document, []⟩

/-- The program, called with arguments in the working directory `cwd`. -/
def execute {m : Type → Type} [Monad m] (s : Storage m) (cwd : Text) (arguments : List Text) :
    m Outcome :=
  match Request.ofArguments arguments with
  | .error fault => return ⟨usageCode, [], "error: ".toList ++ fault.message ++ ['\n']⟩
  | .ok .version => return ⟨0, versionText, []⟩
  | .ok .help => return ⟨0, usageText, []⟩
  | .ok (.run options format) => do return .ofResult format (← (run s options cwd).run)

end Constify
