import Constify.Proofs.Tree.Access
import Constify.Run

/-!
# Running on a tree

* `Tree.exec` : what an action gives on a tree, and the tree that it leaves;
* `exec_loadSettings`, `exec_findSettings`, `exec_loadLifter` : what a run reads before it starts;
* `exec_listFiles` : the files that it visits;
* `exec_run` : a run, stage after stage;
* `exec_findSettings_congr` : the settings depend on one file.
-/

namespace Constify

/-- What an action gives on a tree, and the tree that it leaves. -/
def Tree.exec {α : Type} (t : Tree) (act : StateM Tree α) : α × Tree := (act.run t).run

namespace Tree

variable {α β : Type} (t : Tree) (here : List Bytes)

/-! ## Actions -/

theorem exec_bind (act : StateM Tree α) (f : α → StateM Tree β) :
    t.exec (act >>= f) = (t.exec act).2.exec (f (t.exec act).1) := rfl

/-- An action that cannot fail, followed by one that can. -/
theorem exec_liftM_bind (act : StateM Tree α) (f : α → ExceptT Failure (StateM Tree) β) :
    t.exec (ExceptT.run (liftM act >>= f)) = (t.exec act).2.exec (f (t.exec act).1).run := rfl

theorem exec_lift_bind (act : StateM Tree α) (f : α → ExceptT Failure (StateM Tree) β) :
    t.exec (ExceptT.run (ExceptT.lift act >>= f)) = (t.exec act).2.exec (f (t.exec act).1).run := rfl

/-- The second action is left out if the first one fails. -/
theorem exec_run_bind (act : ExceptT Failure (StateM Tree) α)
    (f : α → ExceptT Failure (StateM Tree) β) :
    t.exec (ExceptT.run (act >>= f)) =
      match t.exec act.run with
      | (.ok a, t') => t'.exec (f a).run
      | (.error failure, t') => (.error failure, t') := by
  rw [ExceptT.run_bind, exec_bind]
  obtain ⟨r, t'⟩ := t.exec act.run
  cases r <;> rfl

theorem exec_readText (path : Bytes) :
    t.exec ((storage here).readText path) = (t.readText here path, t) := rfl

theorem exec_isFile (path : Bytes) :
    t.exec ((storage here).isFile path) = (t.isFile here path, t) := rfl

theorem exec_filesBelow (path : Bytes) :
    t.exec ((storage here).filesBelow path) = (t.filesBelow here path, t) := rfl

theorem exec_writeText (path : Bytes) (text : Text) :
    t.exec ((storage here).writeText path text) =
      match t.writeText here path text with
      | .ok t' => (.ok (), t')
      | .error fault => (.error fault, t) := by
  show t.exec (get >>= fun u : Tree => _) = _
  rw [exec_bind]
  show t.exec (match t.writeText here path text with | .ok _ => _ | .error _ => _) = _
  cases t.writeText here path text <;> rfl

end Tree

/-! ## Before a run -/

theorem exists_of_map_eq_ok {ε α β : Type} {x : Except ε α} {f : α → β} {b : β}
    (h : x.map f = .ok b) : ∃ a, x = .ok a ∧ f a = b := by
  cases x with
  | error e => cases h
  | ok a =>
    cases h
    exact ⟨a, rfl, rfl⟩

theorem ofTableFault_eq_ok_iff {α : Type} {x : Except TableFault α} {a : α} :
    ofTableFault x = .ok a ↔ x = .ok a := by
  cases x <;> simp [ofTableFault]

namespace Tree

variable (t : Tree) (here : List Bytes)

theorem exec_loadSettings (path : Text) :
    t.exec (loadSettings (storage here) path).run =
      (match t.readText here path with
        | .ok text => settingsOfText path text
        | .error fault => .error (.settingsUnreadable path fault.message), t) := by
  unfold loadSettings
  rw [exec_liftM_bind, exec_readText]
  cases t.readText here path <;> rfl

theorem exec_loadTable (name path : Text) :
    t.exec (loadTable (storage here) name path).run =
      (match t.readText here path with
        | .ok text => tableOfText name path text
        | .error fault => .error (.tableSource path fault.message), t) := by
  unfold loadTable
  rw [exec_liftM_bind, exec_readText]
  cases t.readText here path <;> rfl

theorem exec_findSettings (explicit : Option Text) (directory : Text) :
    t.exec (findSettings (storage here) explicit directory).run =
      match explicit with
      | some path => t.exec (loadSettings (storage here) path).run
      | none =>
        if t.isFile here (Path.join directory settingsFile : Text) then
          t.exec (loadSettings (storage here) (Path.join directory settingsFile)).run
        else (.ok Settings.standard, t) := by
  unfold findSettings
  cases explicit with
  | some path => rfl
  | none =>
    dsimp only
    rw [exec_liftM_bind, exec_isFile]
    cases t.isFile here (Path.join directory settingsFile : Text) <;> rfl

theorem exec_findSettings_snd (explicit : Option Text) (directory : Text) :
    (t.exec (findSettings (storage here) explicit directory).run).2 = t := by
  rw [exec_findSettings]
  split
  · rw [exec_loadSettings]
  · split
    · rw [exec_loadSettings]
    · rfl

theorem exec_loadLifter (settings : Settings) (base : Text) :
    t.exec (loadLifter (storage here) settings base).run =
      ((match settings.constants.source with
        | some source =>
          (t.exec (loadTable (storage here) settings.constants.identifier
            (Path.join base source)).run).1
        | none => ofTableFault settings.listedTable).map fun table => ⟨table, settings.importer⟩,
        t) := by
  unfold loadLifter
  cases settings.constants.source with
  | some source =>
    rw [exec_run_bind]
    dsimp only
    rw [exec_loadTable]
    cases t.readText here (Path.join base source : Text) with
    | error fault => rfl
    | ok text =>
      dsimp only
      cases tableOfText settings.constants.identifier (Path.join base source) text <;> rfl
  | none =>
    dsimp only
    cases ofTableFault settings.listedTable <;> rfl

theorem exec_loadLifter_snd (settings : Settings) (base : Text) :
    (t.exec (loadLifter (storage here) settings base).run).2 = t := by
  rw [exec_loadLifter]

theorem exec_listFiles (root : Bytes) (selection : Selection) :
    t.exec (Lifter.listFiles (storage here) root selection).run =
      (match t.filesBelow here root with
        | none => .error (.rootNotFound root.shown)
        | some files => .ok (selection.candidates root files), t) := by
  unfold Lifter.listFiles
  rw [exec_liftM_bind, exec_filesBelow]
  cases t.filesBelow here root <;> rfl

/-! ## Runs with options -/

end Tree

/-- The settings of a run: those that were found, with the root of the options if they name one. -/
def Options.over (options : Options) (settings : Settings) : Settings :=
  { settings with root := options.root.getD settings.root }

/-- The path of the settings file that a run looks for. -/
def Options.settingsPath (options : Options) (cwd : Text) : Text :=
  (options.settings.map (Path.join cwd)).getD (Path.join cwd settingsFile)

namespace Tree

variable (t : Tree) (here : List Bytes)

theorem exec_run (options : Options) (cwd : Text) :
    t.exec (run (storage here) options cwd).run =
      match (t.exec (findSettings (storage here) (options.settings.map (Path.join cwd)) cwd).run).1 with
      | .error failure => (.error failure, t)
      | .ok settings =>
        match (t.exec (loadLifter (storage here) (options.over settings) cwd).run).1 with
        | .error failure => (.error failure, t)
        | .ok l =>
          t.exec (l.run (storage here) ((options.over settings).rootPath cwd)
            (options.over settings).selection options.dryRun).run := by
  unfold run
  rw [exec_run_bind]
  have hsettings := exec_findSettings_snd t here (options.settings.map (Path.join cwd)) cwd
  generalize t.exec (findSettings (storage here) (options.settings.map (Path.join cwd)) cwd).run =
    found at *
  obtain ⟨result, t'⟩ := found
  obtain rfl : t' = t := hsettings
  cases result with
  | error failure => rfl
  | ok settings =>
    show t'.exec (ExceptT.run (loadLifter (storage here) (options.over settings) cwd >>= _)) = _
    rw [exec_run_bind]
    have hlifter := exec_loadLifter_snd t' here (options.over settings) cwd
    dsimp only
    generalize t'.exec (loadLifter (storage here) (options.over settings) cwd).run = loaded at *
    obtain ⟨result, t''⟩ := loaded
    obtain rfl : t'' = t' := hlifter
    cases result <;> rfl

theorem exec_run_of_ok {options : Options} {cwd : Text} {settings : Settings} {l : Lifter}
    (hsettings : (t.exec (findSettings (storage here)
      (options.settings.map (Path.join cwd)) cwd).run).1 = .ok settings)
    (hlifter : (t.exec (loadLifter (storage here) (options.over settings) cwd).run).1 = .ok l) :
    t.exec (run (storage here) options cwd).run =
      t.exec (l.run (storage here) ((options.over settings).rootPath cwd)
        (options.over settings).selection options.dryRun).run := by
  rw [exec_run, hsettings]
  dsimp only
  rw [hlifter]

theorem exec_findSettings_congr {t t' : Tree} {here : List Bytes} {options : Options} {cwd : Text}
    (hfile : t'.isFile here (options.settingsPath cwd) = t.isFile here (options.settingsPath cwd))
    (hread : t'.readText here (options.settingsPath cwd) =
      t.readText here (options.settingsPath cwd)) :
    (t'.exec (findSettings (storage here) (options.settings.map (Path.join cwd)) cwd).run).1 =
      (t.exec (findSettings (storage here) (options.settings.map (Path.join cwd)) cwd).run).1 := by
  unfold Options.settingsPath at hfile hread
  rw [exec_findSettings, exec_findSettings]
  cases h : options.settings.map (Path.join cwd) with
  | some path =>
    rw [h, Option.getD_some] at hread
    dsimp only
    rw [exec_loadSettings, exec_loadSettings, hread]
  | none =>
    rw [h, Option.getD_none] at hfile hread
    dsimp only
    rw [hfile]
    split
    · rw [exec_loadSettings, exec_loadSettings, hread]
    · rfl

end Tree

end Constify
