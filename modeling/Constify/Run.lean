import Constify.Patch.Basic
import Constify.Report.Basic
import Constify.Revision
import Constify.Selection
import Constify.Settings.Document
import Constify.Storage
import Constify.Table.ObjectLiteral

/-!
# Runs

* `loadTable`, `loadSettings`, `findSettings`, `loadLifter` : what a run reads before it starts;
* `Lifter.reviseFile`, `Lifter.reviseAll`, `Lifter.run` : one file, a list of files, a directory;
* `Options`, `run` : a run with its options.

All of it is written over the file operations of a `Storage`. A file that cannot be read or written
is reported and does not end the run.
-/

namespace Constify

variable {m : Type → Type} [Monad m]

/-! ## Before a run -/

/-- The wording used where a module defines no table of the name. -/
def noObject (name : Text) : Text :=
  "no `const ".toList ++ name ++ " = \x7b key: \"value\" \x7d` object found".toList

/-- The table that the text of a file defines as `name`. -/
def tableOfText (name path text : Text) : Except Failure Table :=
  match Table.ofModule? name text with
  | .ok (some t) => .ok t
  | .ok none => .error (.tableSource path (noObject name))
  | .error fault => .error (.tableSource path fault.message)

def loadTable (s : Storage m) (name path : Text) : ExceptT Failure m Table := do
  match ← s.readText path with
  | .ok text => tableOfText name path text
  | .error fault => throw (.tableSource path fault.message)

/-- The front of what the parser says of a text that it does not take. Where it stopped comes after. -/
def parseReason : Text := "TOML parse error".toList

/-- The settings of the text of a file. -/
def settingsOfText (path text : Text) : Except Failure Settings :=
  match Settings.read text with
  | .ok settings => .ok settings
  | .error .malformed => .error (.settingsMalformed path parseReason)
  | .error (.invalid fault) => .error (.settingsInvalid fault.message)

def loadSettings (s : Storage m) (path : Text) : ExceptT Failure m Settings := do
  match ← s.readText path with
  | .ok text => settingsOfText path text
  | .error fault => throw (.settingsUnreadable path fault.message)

def settingsFile : Text := "tagsweep.toml".toList

/-- The settings of the file named, else of the settings file in the directory if there is one, else
the standard ones. -/
def findSettings (s : Storage m) (explicit : Option Text) (directory : Text) :
    ExceptT Failure m Settings := do
  match explicit with
  | some path => loadSettings s path
  | none =>
    let path := Path.join directory settingsFile
    if ← s.isFile path then loadSettings s path else return Settings.standard

def ofTableFault {α : Type} : Except TableFault α → Except Failure α
  | .ok a => .ok a
  | .error fault => .error (.invalidArguments fault.message)

/-- The table and the import statements of the settings, whose paths are seen from `base`. -/
def loadLifter (s : Storage m) (settings : Settings) (base : Text) : ExceptT Failure m Lifter := do
  let table ← match settings.constants.source with
    | some source => loadTable s settings.constants.identifier (Path.join base source)
    | none => ofTableFault settings.listedTable
  return ⟨table, settings.importer⟩

/-! ## Revising files -/

def Settings.selection (s : Settings) : Selection := ⟨s.extensions, s.exclude⟩

namespace Lifter

/-- Revise the file at a path as if it were at `place`, and write it unless this is a dry run. -/
def reviseFile (l : Lifter) (s : Storage m) (dryRun : Bool) (path : Bytes)
    (place : Text) : ExceptT Failure m Revision := do
  match ← s.readText path with
  | .error fault => throw (.file path.shown fault.message)
  | .ok before =>
    let r := { l.revise place before with path }
    if r.changed && !dryRun then
      match ← s.writeText path r.after with
      | .ok _ => return r
      | .error fault => throw (.file path.shown fault.message)
    else return r

def updatedFile (dryRun : Bool) (relative : Text) (r : Revision) : UpdatedFile where
  path := relative
  substitutions := r.substitutions
  importAdded := r.importAdded
  hits := r.hits
  diff := if dryRun then some (patchText relative r.before r.after) else none

/-- Revise files one after the other: the entries for those that changed and for those that
failed. The place of a file is its path relative to the root, as it is shown. -/
def reviseAll (l : Lifter) (s : Storage m) (dryRun : Bool) :
    List Candidate → m (List UpdatedFile × List FailedFile)
  | [] => return ([], [])
  | c :: cs => do
    let result ← (l.reviseFile s dryRun c.path c.relative).run
    let (updated, failed) ← l.reviseAll s dryRun cs
    match result with
    | .ok r =>
      return (if r.changed then updatedFile dryRun c.relative r :: updated else updated, failed)
    | .error failure => return (updated, ⟨c.relative, failure.message⟩ :: failed)

def listFiles (s : Storage m) (root : Bytes) (selection : Selection) :
    ExceptT Failure m (List Candidate) := do
  match ← s.filesBelow root with
  | none => throw (.rootNotFound root.shown)
  | some files => return selection.candidates root files

/-- Revise the selected files below a directory. Only a missing directory ends the run. -/
def run (l : Lifter) (s : Storage m) (root : Bytes) (selection : Selection) (dryRun : Bool) :
    ExceptT Failure m Report := do
  let files ← listFiles s root selection
  let (updated, failed) ← ExceptT.lift (l.reviseAll s dryRun files)
  return { root := root.shown, dryRun, scanned := files.length, updated, failed }

end Lifter

/-! ## Runs with options -/

/-- The options of a run: a directory that takes the place of the root of the settings, a settings
file, and whether files are left as they are. -/
structure Options where
  root : Option Text
  settings : Option Text
  dryRun : Bool
  deriving DecidableEq, Repr

/-- A run in the working directory `cwd`. -/
def run (s : Storage m) (options : Options) (cwd : Text) : ExceptT Failure m Report := do
  let settings ← findSettings s (options.settings.map (Path.join cwd)) cwd
  let settings := { settings with root := options.root.getD settings.root }
  let lifter ← loadLifter s settings cwd
  lifter.run s (settings.rootPath cwd) settings.selection options.dryRun

end Constify
