import Constify.Proofs.Patch.Apply
import Constify.Proofs.Run.Rerun

/-!
# Dry runs

* `UpdatedFile.erase` : an entry of a report without its patch;
* `UpdatedFile.PatchOf` : the patch of an entry turns the lines of the file in one tree into those of
  the file in another;
* `Report.Predicts` : what the report of a dry run says about the real run;
* `exec_lifterRun_dry`, `exec_run_dry` : a dry run leaves the tree as it is and predicts the real run.
-/

namespace Constify

def UpdatedFile.erase (u : UpdatedFile) : UpdatedFile := { u with diff := none }

/-- The entry is that of the file at `rel` below the root. It has a patch with at least one hunk, whose
hunks turn the lines of this file in the tree `t` into those of the file in the tree `t'`. -/
structure UpdatedFile.PatchOf (u : UpdatedFile) (here : List Bytes) (root : Text) (t t' : Tree)
    (rel : List Bytes) : Prop where
  path : u.path = Bytes.shown (Path.through rel)
  patch : ∃ hs before after, u.diff = some (patchHeader u.path ++ hs.flatMap Hunk.text) ∧ hs ≠ [] ∧
    t.readText here (Path.join root (Path.through rel)) = .ok before ∧
    t'.readText here (Path.join root (Path.through rel)) = .ok after ∧
    Hunk.applyFrom 0 0 hs before.lines = some after.lines

/-- The report of a dry run in the tree `t` predicts the report `r` of a run that leaves `t'`. -/
structure Report.Predicts (d : Report) (here : List Bytes) (t : Tree) (r : Report) (t' : Tree) :
    Prop where
  root : d.root = r.root
  scanned : d.scanned = r.scanned
  failed : d.failed = r.failed
  /-- The entries are the same in the same order, patches left out. -/
  updated : d.updated.map UpdatedFile.erase = r.updated
  /-- Every entry has the patch of a file of its own. -/
  patches : ∃ rels : List (List Bytes), rels.Nodup ∧
    List.Forall₂ (fun u rel => u.PatchOf here d.root t t' rel) d.updated rels
  dryRun : d.dryRun = true ∧ r.dryRun = false

namespace Tree

variable {l : Lifter} {t : Tree} {here base rel : List Bytes} {entries : List (Bytes × Tree)} {root : Text}
  {selection : Selection} {bytes : ByteArray}

/-! ## The entries -/

theorem map_erase_updatedFiles (cs : List Candidate) :
    (l.updatedFiles t here true cs).map UpdatedFile.erase = l.updatedFiles t here false cs := by
  unfold Lifter.updatedFiles
  rw [List.map_filterMap]
  refine List.filterMap_congr fun c _ => ?_
  cases l.outcome t here c with
  | error failure => rfl
  | ok r =>
    simp only [Lifter.updated?]
    split <;> rfl

theorem patchText_of_lines_ne (path : Text) {before after : Text} (h : before.lines ≠ after.lines) :
    patchText path before after =
      patchHeader path ++ (hunks before.lines after.lines).flatMap Hunk.text := by
  unfold patchText
  rw [if_neg]
  rintro rfl
  exact h rfl

theorem patchOf_of_updated? {cs : List Candidate} (hcs : cs.Pairwise (Separate t here))
    (hc : Candidate.below root (Path.through rel) ∈ cs) {u : UpdatedFile}
    (hu : Lifter.updated? true (Candidate.below root (Path.through rel))
      (l.outcome t here (Candidate.below root (Path.through rel))) = some u) :
    u.PatchOf here root t (t.mapFiles (l.changes t here cs)) rel := by
  obtain ⟨r, hr, hchanged, rfl⟩ := updated?_eq_some_iff.mp hu
  refine ⟨rfl, ?_⟩
  have hafter := readText_after (l := l) hcs hc
  unfold Lifter.outcome at hr
  dsimp only [Candidate.below] at hr hafter
  cases hread : t.readText here (Path.join root (Path.through rel)) with
  | error fault =>
    rw [hread] at hr
    cases hr
  | ok before =>
    rw [hread] at hr hafter
    obtain rfl := Except.ok.inj hr
    have hlines : before.lines ≠
        (l.revise (Bytes.shown (Path.through rel)) before).after.lines :=
      Lifter.lines_ne_of_changed hchanged
    refine ⟨_, before, _, ?_, hunks_ne_nil hlines, rfl, hafter, apply_hunks _ _⟩
    show some (patchText _ (l.revise (Bytes.shown (Path.through rel)) before).before _) = _
    rw [revise_before, patchText_of_lines_ne _ hlines]
    rfl

/-- Every entry of a dry run has the patch of a file of its own. -/
theorem exists_patches (l : Lifter) (selection : Selection) (ht : t.wellFormed = true) {files : List Bytes}
    (hfiles : t.filesBelow here root = some files) :
    ∃ rels : List (List Bytes), rels.Nodup ∧
      List.Forall₂ (fun u rel => UpdatedFile.PatchOf u here root t
          (t.mapFiles (l.changes t here (selection.candidates root files))) rel)
        (l.updatedFiles t here true (selection.candidates root files)) rels := by
  obtain ⟨base, entries, hroot, hdir, -⟩ := filesBelow_eq_some_iff.mp hfiles
  obtain ⟨found, hnodup, -, hfound⟩ := exists_found selection ht hroot hdir hfiles
  have hsep : (selection.candidates root files).Pairwise (Separate t here) := pairwise_separate ht hfiles
  have hpatch : ∀ f ∈ found, ∀ u,
      Lifter.updated? true (Candidate.below root (Path.through f.1))
        (l.outcome t here (Candidate.below root (Path.through f.1))) = some u →
      u.PatchOf here root t (t.mapFiles (l.changes t here (selection.candidates root files))) f.1 := by
    intro f hf u hu
    refine patchOf_of_updated? hsep ?_ hu
    rw [hfound]
    exact List.mem_map.mpr ⟨f, hf, rfl⟩
  have hpatches := forall₂_filterMap _ hpatch
  have hentries : l.updatedFiles t here true (selection.candidates root files) =
      found.filterMap fun f => Lifter.updated? true (Candidate.below root (Path.through f.1))
        (l.outcome t here (Candidate.below root (Path.through f.1))) := by
    rw [hfound]
    exact List.filterMap_map
  rw [← hentries] at hpatches
  exact ⟨_, hnodup.sublist (List.filter_sublist.map Prod.fst), List.forall₂_map_right_iff.mpr hpatches⟩

/-! ## Dry runs -/

theorem exec_lifterRun_dry (ht : t.wellFormed = true) :
    ∃ result, t.exec (l.run (storage here) root selection true).run = (result, t) ∧
      match result with
      | .error failure => t.exec (l.run (storage here) root selection false).run = (.error failure, t)
      | .ok d => ∃ r t', t.exec (l.run (storage here) root selection false).run = (.ok r, t') ∧
          d.Predicts here t r t' := by
  rw [exec_lifterRun ht, exec_lifterRun ht]
  cases hfiles : t.filesBelow here root with
  | none => exact ⟨_, rfl, rfl⟩
  | some files =>
    refine ⟨_, rfl, _, _, rfl, ?_⟩
    constructor
    case root => rfl
    case scanned => rfl
    case failed => rfl
    case updated => exact map_erase_updatedFiles _
    case patches =>
      have hroot : (l.report t here root true (selection.candidates root files)).root = root :=
        Bytes.shown_bytes root
      rw [hroot]
      exact exists_patches l selection ht hfiles
    case dryRun => exact ⟨rfl, rfl⟩

/-- **A dry run predicts the real run.** It leaves the tree as it is. It fails if the real run does, with
the same failure, which then changes nothing either; else the reports agree but for the patches, and
the patches lead to the lines of the files that the real run leaves. -/
theorem exec_run_dry (ht : t.wellFormed = true) (options : Options) (cwd : Text) :
    ∃ result, t.exec (run (storage here) { options with dryRun := true } cwd).run = (result, t) ∧
      match result with
      | .error failure =>
        t.exec (run (storage here) { options with dryRun := false } cwd).run = (.error failure, t)
      | .ok d => ∃ r t',
          t.exec (run (storage here) { options with dryRun := false } cwd).run = (.ok r, t') ∧
          d.Predicts here t r t' := by
  have hover : ∀ (b : Bool) (settings : Settings),
      Options.over { options with dryRun := b } settings = options.over settings := fun _ _ => rfl
  rw [exec_run, exec_run]
  simp only [hover]
  cases (t.exec (findSettings (storage here) (options.settings.map (Path.join cwd)) cwd).run).1 with
  | error failure => exact ⟨_, rfl, rfl⟩
  | ok settings =>
    dsimp only
    cases (t.exec (loadLifter (storage here) (options.over settings) cwd).run).1 with
    | error failure => exact ⟨_, rfl, rfl⟩
    | ok l => exact exec_lifterRun_dry ht

/-- In the sample, where a file is updated. -/
theorem exec_run_dry_sample :
    ∃ d r t', sample.exec (run (storage []) ⟨none, none, true⟩ ['.']).run = (.ok d, sample) ∧
      sample.exec (run (storage []) ⟨none, none, false⟩ ['.']).run = (.ok r, t') ∧
      d.Predicts [] sample r t' ∧ d.updated ≠ [] := by
  obtain ⟨d, t₁, hrun, hupdated⟩ := exists_exec_run_sample true
  obtain ⟨result, hdry, hresult⟩ := exec_run_dry wellFormed_sample ⟨none, none, false⟩ ['.']
  obtain ⟨rfl, rfl⟩ := Prod.mk.inj (hdry.symm.trans hrun)
  obtain ⟨r, t', hreal, hpredicts⟩ := hresult
  exact ⟨d, r, t', hrun, hreal, hpredicts, hupdated⟩

end Tree

end Constify
