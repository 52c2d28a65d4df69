import Constify.CommandLine
import Constify.Proofs.Run.Exec
import Constify.Proofs.Settings.Valid
import Constify.Proofs.Tree.Below

/-!
# Failures of a run

* `Failure.isSetup` : the failures of what a run does before it revises the first file;
* `Setup p x` : the result `x` has the property `p`, or it is such a failure;
* `setup_findSettings`, `setup_loadLifter` : settings that were found have no fault, and such settings give
  a lifter unless they name a file that gives no table (`exec_loadLifter_of_valid`);
* `eq_rootNotFound_of_lifterRun` : after that a run fails only if the directory is missing;
* `errorEnvelope` : the answer to a run that fails;
* `exec_run_confined` : a run that fails has changed nothing, and the program says why.
-/

namespace Constify

/-- The settings or the table could not be loaded, or the directory to scan is missing. -/
def Failure.isSetup : Failure → Bool
  | rootNotFound .. | settingsUnreadable .. | settingsMalformed .. | settingsInvalid .. |
    tableSource .. => true
  | file .. | invalidArguments .. | internal .. => false

theorem Failure.code_of_isSetup {f : Failure} (h : f.isSetup = true) : f.code = 2 ∨ f.code = 3 := by
  cases f with
  | rootNotFound path | settingsUnreadable path cause => exact Or.inr rfl
  | settingsMalformed path reason | settingsInvalid reason | tableSource path reason => exact Or.inl rfl
  | file path cause | invalidArguments reason | internal reason => cases h

/-- The result has the property, or it is a failure before the first file is revised. -/
def Setup {α : Type} (p : α → Prop) : Except Failure α → Prop
  | .ok a => p a
  | .error failure => failure.isSetup = true

theorem Setup.map {α β : Type} {p : α → Prop} {q : β → Prop} {x : Except Failure α} {f : α → β}
    (h : Setup p x) (hf : ∀ a, p a → q (f a)) : Setup q (x.map f) := by
  cases x with
  | ok a => exact hf a h
  | error failure => exact h

/-! ## What is read before the first file -/

/-- Settings that were read have no fault. -/
theorem setup_settingsOfText (path text : Text) :
    Setup (fun s => s.fault? = none) (settingsOfText path text) := by
  unfold settingsOfText
  cases hread : Settings.read text with
  | ok settings => exact Settings.fault?_of_read hread
  | error e => cases e <;> exact rfl

theorem setup_tableOfText (name path text : Text) :
    Setup (fun _ => True) (tableOfText name path text) := by
  unfold tableOfText
  split
  · exact trivial
  · exact rfl
  · exact rfl

namespace Tree

variable {t t' : Tree} {here : List Bytes} {failure : Failure}

theorem setup_loadSettings (t : Tree) (here : List Bytes) (path : Text) :
    Setup (fun s => s.fault? = none) (t.exec (loadSettings (storage here) path).run).1 := by
  rw [exec_loadSettings]
  cases t.readText here path with
  | ok text => exact setup_settingsOfText path text
  | error fault => exact rfl

theorem setup_loadTable (t : Tree) (here : List Bytes) (name path : Text) :
    Setup (fun _ => True) (t.exec (loadTable (storage here) name path).run).1 := by
  rw [exec_loadTable]
  cases t.readText here path with
  | ok text => exact setup_tableOfText name path text
  | error fault => exact rfl

theorem setup_findSettings (t : Tree) (here : List Bytes) (explicit : Option Text) (directory : Text) :
    Setup (fun s => s.fault? = none)
      (t.exec (findSettings (storage here) explicit directory).run).1 := by
  rw [exec_findSettings]
  cases explicit with
  | some path => exact setup_loadSettings t here path
  | none =>
    dsimp only
    split
    · exact setup_loadSettings t here _
    · exact Settings.fault?_standard

/-- Settings without a fault that list their tags give a lifter, wherever their paths are seen from. -/
theorem exec_loadLifter_of_valid {settings : Settings} (h : settings.fault? = none)
    (hsource : settings.constants.source = none) (t : Tree) (here : List Bytes) (base : Text) :
    ∃ table, settings.listedTable = .ok table ∧
      t.exec (loadLifter (storage here) settings base).run = (.ok ⟨table, settings.importer⟩, t) := by
  obtain ⟨table, htable⟩ := Settings.exists_listedTable h
  refine ⟨table, htable, ?_⟩
  rw [exec_loadLifter, hsource, htable]
  rfl

theorem setup_loadLifter {settings : Settings} (h : settings.fault? = none) (t : Tree)
    (here : List Bytes) (base : Text) :
    Setup (fun _ => True) (t.exec (loadLifter (storage here) settings base).run).1 := by
  cases hsource : settings.constants.source with
  | none =>
    obtain ⟨table, -, hok⟩ := exec_loadLifter_of_valid h hsource t here base
    rw [hok]
    exact trivial
  | some source =>
    rw [exec_loadLifter, hsource]
    exact (setup_loadTable t here _ _).map fun _ _ => trivial

/-! ## The files -/

theorem exec_lifterRun_of_none {root : Bytes} (hfiles : t.filesBelow here root = none) (l : Lifter)
    (selection : Selection) (dryRun : Bool) :
    t.exec (l.run (storage here) root selection dryRun).run = (.error (.rootNotFound root.shown), t) := by
  unfold Lifter.run
  rw [exec_run_bind, exec_listFiles, hfiles]

/-- Once the files are listed a run cannot fail. -/
theorem eq_rootNotFound_of_lifterRun {l : Lifter} {root : Bytes} {selection : Selection} {dryRun : Bool}
    (h : t.exec (l.run (storage here) root selection dryRun).run = (.error failure, t')) :
    failure = .rootNotFound root.shown ∧ t' = t := by
  cases hfiles : t.filesBelow here root with
  | none =>
    rw [exec_lifterRun_of_none hfiles] at h
    cases h
    exact ⟨rfl, rfl⟩
  | some files =>
    unfold Lifter.run at h
    rw [exec_run_bind, exec_listFiles, hfiles] at h
    dsimp only at h
    rw [exec_lift_bind] at h
    cases h

/-- A run that fails has changed nothing, and it fails before it revises a file. -/
theorem isSetup_of_run {options : Options} {cwd : Text}
    (h : t.exec (run (storage here) options cwd).run = (.error failure, t')) :
    t' = t ∧ failure.isSetup = true := by
  have hsettings := setup_findSettings t here (options.settings.map (Path.join cwd)) cwd
  rw [exec_run] at h
  cases hfound : (t.exec (findSettings (storage here)
      (options.settings.map (Path.join cwd)) cwd).run).1 with
  | error other =>
    rw [hfound] at h hsettings
    cases h
    exact ⟨rfl, hsettings⟩
  | ok settings =>
    rw [hfound] at h hsettings
    dsimp only at h
    -- the root does not count for the faults of settings
    have hvalid : (options.over settings).fault? = none := hsettings
    have hload := setup_loadLifter hvalid t here cwd
    cases hlifter : (t.exec (loadLifter (storage here) (options.over settings) cwd).run).1 with
    | error other =>
      rw [hlifter] at h hload
      cases h
      exact ⟨rfl, hload⟩
    | ok l =>
      rw [hlifter] at h
      obtain ⟨rfl, rfl⟩ := eq_rootNotFound_of_lifterRun h
      exact ⟨rfl, rfl⟩

/-! ## The program -/

theorem exec_execute {cwd : Text} {arguments : List Text} {options : Options} {format : Format}
    (h : Request.ofArguments arguments = .ok (.run options format)) :
    t.exec (execute (storage here) cwd arguments) =
      (.ofResult format (t.exec (run (storage here) options cwd).run).1,
        (t.exec (run (storage here) options cwd).run).2) := by
  unfold execute
  rw [h]
  rfl

end Tree

/-- The answer to a run that fails: its code and a message. -/
def errorEnvelope (code : Nat) (message : Text) : Json :=
  .object
    [("status".toList, .string "error".toList), ("schema_version".toList, .string schemaVersion),
      ("error".toList, .object [("code".toList, .number code), ("message".toList, .string message)])]

namespace Tree

/-- **Failures are confined.** A run that fails leaves the tree as it is and fails for its settings, its
table or its directory. Settings without a fault that list their tags always give a lifter. And the program
ends with code 0 exactly if the run succeeds, however many files fail, else with 2 or 3 and, if asked for
JSON, with an answer that holds this code. -/
theorem exec_run_confined (t : Tree) (here : List Bytes) (cwd : Text) :
    (∀ options failure t', t.exec (run (storage here) options cwd).run = (.error failure, t') →
      t' = t ∧ failure.isSetup = true) ∧
    (∀ settings : Settings, settings.fault? = none → settings.constants.source = none → ∀ base,
      ∃ table, settings.listedTable = .ok table ∧
        t.exec (loadLifter (storage here) settings base).run =
          (.ok ⟨table, settings.importer⟩, t)) ∧
    ∀ arguments options format, Request.ofArguments arguments = .ok (.run options format) →
      match t.exec (run (storage here) options cwd).run with
      | (.ok _, t') => ∃ outcome,
        t.exec (execute (storage here) cwd arguments) = (outcome, t') ∧ outcome.code = 0
      | (.error _, _) => ∃ outcome,
        t.exec (execute (storage here) cwd arguments) = (outcome, t) ∧
          (outcome.code = 2 ∨ outcome.code = 3) ∧
          (format = .json → ∃ message, outcome.output = (errorEnvelope outcome.code message).document) := by
  refine ⟨fun options failure t' => isSetup_of_run, fun settings h hsource base =>
    exec_loadLifter_of_valid h hsource t here base, fun arguments options format harguments => ?_⟩
  rw [exec_execute harguments]
  cases hrun : t.exec (run (storage here) options cwd).run with
  | mk result t' =>
    cases result with
    | ok report =>
      refine ⟨_, rfl, ?_⟩
      cases format <;> rfl
    | error failure =>
      obtain ⟨rfl, hsetup⟩ := isSetup_of_run hrun
      refine ⟨_, rfl, ?_, ?_⟩
      · cases format <;> exact Failure.code_of_isSetup hsetup
      · rintro rfl
        exact ⟨failure.message, rfl⟩

def bareTree : Tree := dir []

theorem resolveFrom_bareTree {name : Bytes} (hname : Path.isName name = true) :
    resolveFrom bareTree maxLinks [] [[PathUnit.dot], name] = .error .notFound := by
  rw [bareTree, resolveFrom_cons_of_here rfl (Or.inr rfl), resolveFrom_cons_of_absent rfl hname rfl]

theorem resolve_bareTree_settings :
    bareTree.resolve [] (Path.join ['.'] settingsFile : Text) = .error .notFound := by
  rw [resolve_of_taken (by decide)]
  exact resolveFrom_bareTree (by decide)

theorem resolve_bareTree_root :
    bareTree.resolve [] (Settings.standard.rootPath ['.']) = .error .notFound := by
  rw [resolve_of_taken (by decide)]
  exact resolveFrom_bareTree (by decide)

theorem exec_run_bareTree :
    bareTree.exec (run (storage []) ⟨none, none, false⟩ ['.']).run =
      (.error (.rootNotFound ['.', '/', 's', 'r', 'c']), bareTree) := by
  have hfile : bareTree.isFile [] (Path.join ['.'] settingsFile : Text) = false := by
    unfold isFile
    rw [find?_of_resolve_error resolve_bareTree_settings]
  have hroot : bareTree.filesBelow [] (Settings.standard.rootPath ['.']) = none := by
    unfold filesBelow
    rw [find?_of_resolve_error resolve_bareTree_root]
  have hsettings : (bareTree.exec (findSettings (storage [])
      ((⟨none, none, false⟩ : Options).settings.map (Path.join ['.'])) ['.']).run).1 =
        .ok Settings.standard := by
    rw [exec_findSettings]
    show (if bareTree.isFile [] (Path.join ['.'] settingsFile : Text) = true then _ else _ : _ × Tree).1 = _
    rw [hfile]
    rfl
  obtain ⟨table, -, hload⟩ := exec_loadLifter_of_valid Settings.fault?_standard rfl bareTree [] ['.']
  rw [exec_run_of_ok bareTree [] hsettings (congrArg Prod.fst hload)]
  exact exec_lifterRun_of_none hroot _ _ _

/-- In a directory without any file, with the answer as JSON. -/
theorem exec_run_confined_bareTree :
    bareTree.exec (run (storage []) ⟨none, none, false⟩ ['.']).run =
        (.error (.rootNotFound ['.', '/', 's', 'r', 'c']), bareTree) ∧
      (Failure.rootNotFound ['.', '/', 's', 'r', 'c']).isSetup = true ∧
      Settings.standard.fault? = none ∧ Settings.standard.constants.source = none ∧
      (∃ table, Settings.standard.listedTable = .ok table ∧
        bareTree.exec (loadLifter (storage []) Settings.standard ['.']).run =
          (.ok ⟨table, Settings.standard.importer⟩, bareTree)) ∧
      Request.ofArguments ["--format=json".toList] = .ok (.run ⟨none, none, false⟩ .json) ∧
      ∃ outcome, bareTree.exec (execute (storage []) ['.'] ["--format=json".toList]) =
          (outcome, bareTree) ∧
        (outcome.code = 2 ∨ outcome.code = 3) ∧
        ∃ message, outcome.output = (errorEnvelope outcome.code message).document := by
  obtain ⟨hconfined, hlifter, hprogram⟩ := exec_run_confined bareTree [] ['.']
  have harguments : Request.ofArguments ["--format=json".toList] =
    .ok (.run ⟨none, none, false⟩ .json) := by rfl
  have houtcome := hprogram _ _ _ harguments
  rw [exec_run_bareTree] at houtcome
  obtain ⟨outcome, hexecute, hcode, hjson⟩ := houtcome
  exact ⟨exec_run_bareTree, (hconfined _ _ _ exec_run_bareTree).2, Settings.fault?_standard, rfl,
    hlifter _ Settings.fault?_standard rfl ['.'], harguments, outcome, hexecute, hcode, hjson rfl⟩

end Tree

end Constify
