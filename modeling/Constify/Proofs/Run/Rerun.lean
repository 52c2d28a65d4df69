import Constify.Proofs.Revision
import Constify.Proofs.Run.Sweep

/-!
# Running again

* `readText_after` : what a candidate's path gives after a run;
* `revisedBytes_revisedBytes`, `mapFiles_changes_mapFiles` : revising files again changes nothing;
* `exec_lifterRun_again` : a second run over the directory;
* `Tree.Unvisited` : a path that does not lead to a file that the run visits;
* `exec_run_again` : a second run with the same options.
-/

namespace Constify.Tree

variable {l : Lifter} {t : Tree} {here : List Bytes} {c : Candidate} {cs : List Candidate}

/-! ## Files after a run -/

theorem textOfBytes_revisedBytes (place : Text) (bytes : ByteArray) :
    textOfBytes (l.revisedBytes place bytes) =
      (textOfBytes bytes).map fun text => (l.revise place text).after := by
  cases hd : Text.decode? bytes with
  | none =>
    rw [revisedBytes_of_decode?_none hd]
    unfold textOfBytes
    rw [hd]
    rfl
  | some text =>
    rw [revisedBytes_of_decode? hd, textOfBytes_eq_ok_iff.mpr hd]
    exact textOfBytes_eq_ok_iff.mpr (Text.decode?_encode _)

/-- After a run the path of a candidate gives the revision of what it gave before. -/
theorem readText_after (hcs : cs.Pairwise (Separate t here)) (hc : c ∈ cs) :
    (t.mapFiles (l.changes t here cs)).readText here c.path =
      (t.readText here c.path).map fun text => (l.revise c.relative text).after := by
  refine readText_mapFiles fun names bytes hr _ => ?_
  rw [changes_of_mem hcs hc hr, textOfBytes_revisedBytes]

/-! ## Revising again -/

theorem revisedBytes_revisedBytes (hl : l.Consistent) (place : Text) (bytes : ByteArray) :
    l.revisedBytes place (l.revisedBytes place bytes) = l.revisedBytes place bytes := by
  cases hd : Text.decode? bytes with
  | none => rw [revisedBytes_of_decode?_none hd, revisedBytes_of_decode?_none hd]
  | some text =>
    rw [revisedBytes_of_decode? hd, revisedBytes_of_decode? (Text.decode?_encode _),
      Lifter.after_revise_after hl]

theorem mapFiles_changes_mapFiles (hl : l.Consistent) (hcs : cs.Pairwise (Separate t here)) :
    (t.mapFiles (l.changes t here cs)).mapFiles
        (l.changes (t.mapFiles (l.changes t here cs)) here cs) =
      t.mapFiles (l.changes t here cs) := by
  rw [changes_mapFiles, mapFiles_mapFiles]
  congr 1
  funext names bytes
  by_cases h : ∃ c ∈ cs, t.resolve here c.path = .ok names
  · obtain ⟨c, hc, hr⟩ := h
    rw [changes_of_mem hcs hc hr, changes_of_mem hcs hc hr, revisedBytes_revisedBytes hl]
  · have hne : ∀ c ∈ cs, t.resolve here c.path ≠ .ok names := fun c hc hr => h ⟨c, hc, hr⟩
    rw [changes_of_forall_ne hne, changes_of_forall_ne hne]

/-- Revising a file again gives the same failure, or a revision that changes nothing. -/
theorem outcome_after (hl : l.Consistent) (hcs : cs.Pairwise (Separate t here)) (hc : c ∈ cs) :
    match l.outcome t here c with
    | .ok _ => ∃ r, l.outcome (t.mapFiles (l.changes t here cs)) here c = .ok r ∧
        r.changed = false
    | .error failure => l.outcome (t.mapFiles (l.changes t here cs)) here c = .error failure := by
  unfold Lifter.outcome
  rw [readText_after hcs hc]
  cases t.readText here c.path with
  | error fault => rfl
  | ok text =>
    refine ⟨_, rfl, ?_⟩
    simp only [Revision.changed, revise_before, Lifter.after_revise_after hl, bne_self_eq_false]

theorem updatedFiles_after (hl : l.Consistent) (hcs : cs.Pairwise (Separate t here)) (dryRun : Bool) :
    l.updatedFiles (t.mapFiles (l.changes t here cs)) here dryRun cs = [] := by
  unfold Lifter.updatedFiles
  rw [List.filterMap_eq_nil_iff]
  intro c hc
  have h := outcome_after hl hcs hc
  split at h
  · obtain ⟨r, hr, hchanged⟩ := h
    rw [hr, Lifter.updated?, hchanged]
    rfl
  · rw [h]
    rfl

theorem failedFiles_after (hl : l.Consistent) (hcs : cs.Pairwise (Separate t here)) :
    l.failedFiles (t.mapFiles (l.changes t here cs)) here cs = l.failedFiles t here cs := by
  unfold Lifter.failedFiles
  refine List.filterMap_congr fun c hc => ?_
  have h := outcome_after hl hcs hc
  cases hout : l.outcome t here c with
  | error failure =>
    rw [hout] at h
    rw [h]
  | ok r =>
    rw [hout] at h
    obtain ⟨r', hr', -⟩ := h
    rw [hr']
    rfl

/-! ## A second run -/

theorem exists_of_exec_lifterRun (ht : t.wellFormed = true) {root : Bytes} {selection : Selection}
    {r : Report} {t' : Tree}
    (h : t.exec (l.run (storage here) root selection false).run = (.ok r, t')) :
    ∃ files, t.filesBelow here root = some files ∧
      r = l.report t here root false (selection.candidates root files) ∧
      t' = t.mapFiles (l.changes t here (selection.candidates root files)) := by
  rw [exec_lifterRun ht] at h
  cases hfiles : t.filesBelow here root with
  | none =>
    rw [hfiles] at h
    cases h
  | some files =>
    rw [hfiles] at h
    cases h
    exact ⟨files, rfl, rfl, rfl⟩

/-- A second run over a directory reports the same failures and no other file, and leaves the tree as
it is. -/
theorem exec_lifterRun_again (hl : l.Consistent) (ht : t.wellFormed = true) {root : Bytes}
    {selection : Selection} {r : Report} {t' : Tree}
    (h : t.exec (l.run (storage here) root selection false).run = (.ok r, t')) :
    t'.exec (l.run (storage here) root selection false).run = (.ok { r with updated := [] }, t') := by
  obtain ⟨files, hfiles, rfl, rfl⟩ := exists_of_exec_lifterRun ht h
  have hsep : (selection.candidates root files).Pairwise (Separate t here) :=
    pairwise_separate ht hfiles
  have ht' : (t.mapFiles (l.changes t here (selection.candidates root files))).wellFormed = true := by
    rw [wellFormed_mapFiles, ht]
  rw [exec_lifterRun ht', filesBelow_mapFiles, hfiles]
  dsimp only
  rw [mapFiles_changes_mapFiles hl hsep, Lifter.report, updatedFiles_after hl hsep,
    failedFiles_after hl hsep]
  rfl

/-- No selected file below the root stands where the path leads. -/
def Unvisited (t : Tree) (here : List Bytes) (root : Bytes) (selection : Selection) (path : Bytes) :
    Prop :=
  ∀ base rel bytes, t.resolve here root = .ok base → t.Selected base selection rel bytes →
    t.resolve here path ≠ .ok (base ++ rel)

theorem readText_of_unvisited (ht : t.wellFormed = true) {root path : Bytes} {selection : Selection}
    {files : List Bytes} (hfiles : t.filesBelow here root = some files)
    (h : t.Unvisited here root selection path) :
    (t.mapFiles (l.changes t here (selection.candidates root files))).readText here path =
      t.readText here path := by
  obtain ⟨base, entries, hroot, hdir, -⟩ := filesBelow_eq_some_iff.mp hfiles
  refine readText_mapFiles_of_eq fun names bytes hnames _ => changes_of_forall_ne fun c hc hr => ?_
  obtain ⟨rel, bytes', hvisits, rfl⟩ := (mem_candidates_iff ht hroot hdir hfiles).mp hc
  rw [resolve_eq_of_selected ht hroot hdir hvisits.toSelected hr] at hnames
  exact h base rel bytes' hroot hvisits.toSelected hnames

theorem consistent_of_loadLifter {settings : Settings} {base : Text}
    (hsource : settings.constants.source = none) (hm : '"' ∉ settings.constants.module)
    (h : (t.exec (loadLifter (storage here) settings base).run).1 = .ok l) : l.Consistent := by
  rw [exec_loadLifter, hsource] at h
  obtain ⟨table, htable, rfl⟩ := exists_of_map_eq_ok h
  have hlisted : settings.listedTable = .ok table := ofTableFault_eq_ok_iff.mp htable
  exact ⟨Table.unmixed_of_ofNames hlisted, (Table.identifier_of_ofEntries hlisted).1.symm, hm⟩

/-- **Running again is safe.** If the settings list the tags themselves and name a module without a
double quote, a second run with the same options reports the same failures and no updated file, and
leaves every byte of the tree as it is. -/
theorem exec_run_again {options : Options} {cwd : Text} {settings : Settings} {r : Report} {t' : Tree}
    (ht : t.wellFormed = true) (hreal : options.dryRun = false)
    (hsettings : t.exec (findSettings (storage here) (options.settings.map (Path.join cwd)) cwd).run =
      (.ok settings, t))
    (hsource : settings.constants.source = none) (hm : '"' ∉ settings.constants.module)
    (hunvisited : t.Unvisited here ((options.over settings).rootPath cwd)
      (options.over settings).selection (options.settingsPath cwd))
    (hrun : t.exec (run (storage here) options cwd).run = (.ok r, t')) :
    t'.exec (run (storage here) options cwd).run = (.ok { r with updated := [] }, t') := by
  cases hlifter : (t.exec (loadLifter (storage here) (options.over settings) cwd).run).1 with
  | error failure =>
    rw [exec_run, hsettings] at hrun
    dsimp only at hrun
    rw [hlifter] at hrun
    cases hrun
  | ok l =>
    rw [exec_run_of_ok t here (by rw [hsettings]) hlifter, hreal] at hrun
    have hl : l.Consistent := consistent_of_loadLifter hsource hm hlifter
    have hagain := exec_lifterRun_again hl ht hrun
    -- the second run finds the settings of the first, whose table is read from no file
    have hsettings' : (t'.exec (findSettings (storage here)
        (options.settings.map (Path.join cwd)) cwd).run).1 = .ok settings := by
      obtain ⟨files, hfiles, -, rfl⟩ := exists_of_exec_lifterRun ht hrun
      rw [exec_findSettings_congr (isFile_mapFiles ..) (readText_of_unvisited ht hfiles hunvisited),
        hsettings]
    have hlifter' : (t'.exec (loadLifter (storage here) (options.over settings) cwd).run).1 =
        .ok l := by
      have hnone : (options.over settings).constants.source = none := hsource
      rw [exec_loadLifter, hnone] at hlifter ⊢
      exact hlifter
    rw [exec_run_of_ok t' here hsettings' hlifter', hreal]
    exact hagain

theorem exec_findSettings_sample :
    sample.exec (findSettings (storage []) none ['.']).run = (.ok Settings.standard, sample) := by
  have hfile : sample.isFile [] (Path.join ['.'] settingsFile : Text) = false := by
    unfold isFile
    rw [find?_of_resolve_error resolve_sample_settings]
  rw [exec_findSettings]
  dsimp only
  rw [hfile]
  rfl

/-- The first file of the sample. -/
def sampleCandidate : Candidate :=
  Candidate.below (Settings.standard.rootPath ['.']) (Path.through ["a.ts".toList])

theorem readText_sample : sample.readText [] sampleCandidate.path = .ok "f(\"fats\")".toList := by
  have hresolve : sample.resolve [] sampleCandidate.path = .ok ["src".toList, "a.ts".toList] :=
    (resolve_join wellFormed_sample resolve_sample_root rfl (List.mem_cons_self ..)).trans
      (if_neg (by decide))
  exact readText_eq_ok_iff.mpr ⟨_, _, hresolve, rfl, Text.decode?_encode _⟩

/-- A run in the sample succeeds and updates a file. -/
theorem exists_exec_run_sample (dryRun : Bool) :
    ∃ r t', sample.exec (run (storage []) ⟨none, none, dryRun⟩ ['.']).run = (.ok r, t') ∧
      r.updated ≠ [] := by
  obtain ⟨files, hfiles⟩ : ∃ files,
      sample.filesBelow [] (Settings.standard.rootPath ['.']) = some files :=
    ⟨_, filesBelow_eq_some_iff.mpr ⟨_, _, resolve_sample_root, rfl, rfl⟩⟩
  have hover : Options.over ⟨none, none, dryRun⟩ Settings.standard = Settings.standard := rfl
  have hlifter : (sample.exec (loadLifter (storage [])
      (Options.over ⟨none, none, dryRun⟩ Settings.standard) ['.']).run).1 =
        .ok Lifter.standard := by
    rw [hover, exec_loadLifter]
    rfl
  have hsettings : (sample.exec (findSettings (storage [])
      ((⟨none, none, dryRun⟩ : Options).settings.map (Path.join ['.'])) ['.']).run).1 =
        .ok Settings.standard := congrArg Prod.fst exec_findSettings_sample
  rw [exec_run_of_ok sample [] hsettings hlifter, hover,
    exec_lifterRun_of_some wellFormed_sample hfiles]
  have hmem : sampleCandidate ∈
      Settings.standard.selection.candidates (Settings.standard.rootPath ['.']) files :=
    (mem_candidates_iff wellFormed_sample resolve_sample_root rfl hfiles).mpr
      ⟨["a.ts".toList], _, ⟨⟨rfl, by decide⟩, by decide⟩, rfl⟩
  have houtcome := outcome_of_readText (l := Lifter.standard) readText_sample
  have hchanged : (Lifter.standard.revise sampleCandidate.relative "f(\"fats\")".toList).after ≠
      "f(\"fats\")".toList :=
    Lifter.after_revise_ne (by decide) _
  exact ⟨_, _, rfl, List.ne_nil_of_mem
    (mem_updatedFiles_iff.mpr ⟨_, hmem, _, houtcome, changed_iff.mpr hchanged, rfl⟩)⟩

theorem exec_run_again_sample :
    ∃ r t', sample.exec (run (storage []) ⟨none, none, false⟩ ['.']).run = (.ok r, t') ∧
      t'.exec (run (storage []) ⟨none, none, false⟩ ['.']).run = (.ok { r with updated := [] }, t') := by
  obtain ⟨r, t', hrun, -⟩ := exists_exec_run_sample false
  refine ⟨r, t', hrun, exec_run_again wellFormed_sample rfl exec_findSettings_sample rfl (by decide)
    (fun base rel bytes _ _ hok => ?_) hrun⟩
  have herror : sample.resolve [] (Options.settingsPath ⟨none, none, false⟩ ['.']) =
    .error .notFound := resolve_sample_settings
  rw [herror] at hok
  cases hok

end Constify.Tree
