import Constify.Proofs.Run.Collection
import Constify.Proofs.Run.Sweep

/-!
# The effect of a run over a directory

* `Tree.readBelow` : what reading a file below a directory gives;
* `Lifter.updatedBelow?`, `Lifter.failedBelow?` : the entry of the report for such a file;
* `Lifter.Effect` : what a run over a directory does to the tree, and what it reports;
* `exec_run_effect` : a run does this, whatever files fail;
* `exec_run_inexact` : a file may fail that is UTF-8, and two entries may have one path.
-/

namespace Constify

/-- What reading the file with these bytes at `rel` below `root` gives. The system has to take its path. -/
def Tree.readBelow (root : Bytes) (rel : List Bytes) (bytes : ByteArray) : Except ReadFault Text :=
  if maxPathBytes ≤ (Path.join root (Path.through rel)).length then .error .nameTooLong
  else textOfBytes bytes

namespace Lifter

def reviseBelow (l : Lifter) (rel : List Bytes) (text : Text) : Revision :=
  l.revise (Bytes.shown (Path.through rel)) text

/-- The entry of the report for a file, if it is changed. -/
def updatedBelow? (l : Lifter) (root : Bytes) (rel : List Bytes) (bytes : ByteArray) :
    Option UpdatedFile :=
  match Tree.readBelow root rel bytes with
  | .ok text =>
    if (l.reviseBelow rel text).changed then
      some {
        path := Bytes.shown (Path.through rel)
        substitutions := (l.reviseBelow rel text).substitutions
        importAdded := (l.reviseBelow rel text).importAdded
        hits := (l.reviseBelow rel text).hits
        diff := none }
    else none
  | .error _ => none

/-- The entry of the report for a file, if it cannot be read. -/
def failedBelow? (root : Bytes) (rel : List Bytes) (bytes : ByteArray) : Option FailedFile :=
  match Tree.readBelow root rel bytes with
  | .ok _ => none
  | .error fault =>
    some {
      path := Bytes.shown (Path.through rel)
      error := (Failure.file (Bytes.shown (Path.join root (Path.through rel))) fault.message).message }

/-- What a run over the directory at `base` does to the tree, and what it reports. -/
structure Effect (l : Lifter) (t : Tree) (root : Bytes) (base : List Bytes) (selection : Selection)
    (report : Report) (t' : Tree) : Prop where
  /-- A visited file that can be read holds its revision. -/
  revised : ∀ rel bytes text, t.Visits root base selection rel bytes →
    Tree.readBelow root rel bytes = .ok text →
    t'.at? (base ++ rel) = some (.file (l.reviseBelow rel text).after.encode)
  /-- A file that is not visited, cannot be read or has an unchanged revision holds its old bytes. -/
  kept : ∀ names bytes, t.at? names = some (.file bytes) →
    (∀ rel text, names = base ++ rel → t.Visits root base selection rel bytes →
      Tree.readBelow root rel bytes = .ok text → (l.reviseBelow rel text).changed = false) →
    t'.at? names = some (.file bytes)
  /-- Nothing but the bytes of files differs. -/
  shape : ∃ f, t' = t.mapFiles f
  header : report.root = root.shown ∧ report.dryRun = false
  /-- The entries are those of the visited files, in the order of the bytes of their paths. -/
  entries : ∃ found : List (List Bytes × ByteArray), (found.map Prod.fst).Nodup ∧
    (∀ rel bytes, (rel, bytes) ∈ found ↔ t.Visits root base selection rel bytes) ∧
    (found.Pairwise fun f g =>
      (Bytes.shown (Path.through f.1)).bytes ≤ (Bytes.shown (Path.through g.1)).bytes) ∧
    report.scanned = found.length ∧
    report.updated = found.filterMap (fun f => l.updatedBelow? root f.1 f.2) ∧
    report.failed = found.filterMap fun f => failedBelow? root f.1 f.2
  /-- Below names that are UTF-8 no two entries have the same path. -/
  readable : ∀ top, t.at? base = some top → top.Readable →
    (report.updated.Pairwise fun u v => u.path.bytes < v.path.bytes) ∧
      (report.failed.Pairwise fun x y => x.path.bytes < y.path.bytes) ∧
      ∀ u ∈ report.updated, ∀ x ∈ report.failed, u.path ≠ x.path

end Lifter

namespace Tree

variable {l : Lifter} {t : Tree} {here base rel : List Bytes} {root : Bytes}
  {entries : List (Bytes × Tree)} {selection : Selection} {bytes : ByteArray}

/-! ## The files that are visited -/

theorem mem_filesOfEntries_of_selected (ht : t.wellFormed = true) (hdir : t.at? base = some (dir entries))
    (h : t.Selected base selection rel bytes) : (rel, bytes) ∈ filesOfEntries entries := by
  rw [mem_filesOfEntries_iff_at? (wellFormed_of_at? ht hdir), ← at?_append_of_dir hdir]
  exact h.file

theorem readText_of_selected (ht : t.wellFormed = true) (hroot : t.resolve here root = .ok base)
    (hdir : t.at? base = some (dir entries)) (h : t.Selected base selection rel bytes) :
    t.readText here (Path.join root (Path.through rel)) = readBelow root rel bytes := by
  have hresolve := resolve_join ht hroot hdir (mem_filesOfEntries_of_selected ht hdir h)
  unfold readBelow
  split
  · next hlong =>
    rw [if_pos hlong] at hresolve
    exact readText_of_resolve_error hresolve
  · next hlong =>
    rw [if_neg hlong] at hresolve
    exact readText_of_file hresolve h.file

theorem outcome_of_selected (ht : t.wellFormed = true) (hroot : t.resolve here root = .ok base)
    (hdir : t.at? base = some (dir entries)) (h : t.Selected base selection rel bytes) :
    l.outcome t here (Candidate.below root (Path.through rel)) =
      match readBelow root rel bytes with
      | .ok text => .ok { l.reviseBelow rel text with path := Path.join root (Path.through rel) }
      | .error fault =>
        .error (.file (Bytes.shown (Path.join root (Path.through rel))) fault.message) := by
  have hread := readText_of_selected ht hroot hdir h
  unfold Lifter.outcome
  dsimp only [Candidate.below]
  rw [hread]
  cases readBelow root rel bytes <;> rfl

section

variable {found : List (List Bytes × ByteArray)} (ht : t.wellFormed = true)
  (hroot : t.resolve here root = .ok base) (hdir : t.at? base = some (dir entries))
  (h : ∀ f ∈ found, t.Selected base selection f.1 f.2)

include ht hroot hdir h

theorem updatedFiles_of_selected :
    l.updatedFiles t here false (found.map fun f => Candidate.below root (Path.through f.1)) =
      found.filterMap fun f => l.updatedBelow? root f.1 f.2 := by
  rw [Lifter.updatedFiles, List.filterMap_map]
  refine List.filterMap_congr fun f hf => ?_
  dsimp only [Function.comp_apply]
  rw [outcome_of_selected ht hroot hdir (h f hf), Lifter.updatedBelow?]
  cases readBelow root f.1 f.2 <;> rfl

theorem failedFiles_of_selected :
    l.failedFiles t here (found.map fun f => Candidate.below root (Path.through f.1)) =
      found.filterMap fun f => Lifter.failedBelow? root f.1 f.2 := by
  rw [Lifter.failedFiles, List.filterMap_map]
  refine List.filterMap_congr fun f hf => ?_
  dsimp only [Function.comp_apply]
  rw [outcome_of_selected ht hroot hdir (h f hf), Lifter.failedBelow?]
  cases readBelow root f.1 f.2 <;> rfl

end

/-! ## The entries of the report -/

theorem path_of_updatedBelow? {u : UpdatedFile} (h : l.updatedBelow? root rel bytes = some u) :
    u.path = Bytes.shown (Path.through rel) := by
  unfold Lifter.updatedBelow? at h
  split at h
  · rw [← Option.some.inj (Option.ite_none_right_eq_some.mp h).2]
  · cases h

theorem path_of_failedBelow? {x : FailedFile} (h : Lifter.failedBelow? root rel bytes = some x) :
    x.path = Bytes.shown (Path.through rel) := by
  unfold Lifter.failedBelow? at h
  split at h
  · cases h
  · rw [← Option.some.inj h]

/-- A file is not reported in both lists. -/
theorem failedBelow?_of_updatedBelow? {u : UpdatedFile} (h : l.updatedBelow? root rel bytes = some u) :
    Lifter.failedBelow? root rel bytes = none := by
  unfold Lifter.updatedBelow? at h
  unfold Lifter.failedBelow?
  split at h
  · rfl
  · cases h

/-- The two lists of entries, if the files come in strict order. -/
theorem sorted_of_pairwise_lt {found : List (List Bytes × ByteArray)}
    (hlt : found.Pairwise fun f g =>
      (Bytes.shown (Path.through f.1)).bytes < (Bytes.shown (Path.through g.1)).bytes) :
    ((found.filterMap fun f => l.updatedBelow? root f.1 f.2).Pairwise fun u v =>
        u.path.bytes < v.path.bytes) ∧
      ((found.filterMap fun f => Lifter.failedBelow? root f.1 f.2).Pairwise fun x y =>
        x.path.bytes < y.path.bytes) ∧
      ∀ u ∈ found.filterMap (fun f => l.updatedBelow? root f.1 f.2),
        ∀ x ∈ found.filterMap (fun f => Lifter.failedBelow? root f.1 f.2), u.path ≠ x.path := by
  refine ⟨hlt.filterMap _ fun f g hfg u hu v hv => ?_, hlt.filterMap _ fun f g hfg x hx y hy => ?_,
    fun u hu x hx heq => ?_⟩
  · rwa [path_of_updatedBelow? hu, path_of_updatedBelow? hv]
  · rwa [path_of_failedBelow? hx, path_of_failedBelow? hy]
  · obtain ⟨f, hf, hu⟩ := List.mem_filterMap.mp hu
    obtain ⟨g, hg, hx⟩ := List.mem_filterMap.mp hx
    rw [path_of_updatedBelow? hu, path_of_failedBelow? hx] at heq
    have hnodup : (found.map fun f => Bytes.shown (Path.through f.1)).Nodup := by
      rw [List.Nodup, List.pairwise_map]
      refine hlt.imp fun {f g} hfg heq => ?_
      rw [heq] at hfg
      exact List.lt_irrefl _ hfg
    have hfg : f = g := List.inj_on_of_nodup_map hnodup hf hg heq
    rw [← hfg, failedBelow?_of_updatedBelow? hu] at hx
    cases hx

/-! ## The bytes of the files -/

theorem after_of_changed_eq_false {text : Text} (h : (l.reviseBelow rel text).changed = false) :
    (l.reviseBelow rel text).after = text := by
  simpa [Revision.changed, Lifter.reviseBelow, revise_before] using h

section

variable {files : List Bytes} (ht : t.wellFormed = true) (hroot : t.resolve here root = .ok base)
  (hdir : t.at? base = some (dir entries)) (hfiles : t.filesBelow here root = some files)

include ht hroot hdir hfiles

/-- A visited file that can be read is given its revision. -/
theorem changes_of_visits {text : Text} (h : t.Visits root base selection rel bytes)
    (hread : readBelow root rel bytes = .ok text) :
    l.changes t here (selection.candidates root files) (base ++ rel) bytes =
      (l.reviseBelow rel text).after.encode := by
  have hresolve := resolve_join ht hroot hdir (mem_filesOfEntries_of_selected ht hdir h.toSelected)
  unfold readBelow at hread
  split at hread
  · cases hread
  · next hlong =>
    rw [if_neg hlong] at hresolve
    have hmem : Candidate.below root (Path.through rel) ∈ selection.candidates root files :=
      (mem_candidates_iff ht hroot hdir hfiles).mpr ⟨rel, bytes, h, rfl⟩
    rw [changes_of_mem (pairwise_separate ht hfiles) hmem hresolve,
      revisedBytes_of_decode? (textOfBytes_eq_ok_iff.mp hread)]
    rfl

theorem changes_of_unchanged {names : List Bytes} (hfile : t.at? names = some (file bytes))
    (h : ∀ rel text, names = base ++ rel → t.Visits root base selection rel bytes →
      readBelow root rel bytes = .ok text → (l.reviseBelow rel text).changed = false) :
    l.changes t here (selection.candidates root files) names bytes = bytes := by
  by_cases hc : ∃ c ∈ selection.candidates root files, t.resolve here c.path = .ok names
  · obtain ⟨c, hc, hnames⟩ := hc
    rw [changes_of_mem (pairwise_separate ht hfiles) hc hnames]
    obtain ⟨rel, other, hvisits, rfl⟩ := (mem_candidates_iff ht hroot hdir hfiles).mp hc
    obtain rfl := resolve_eq_of_selected ht hroot hdir hvisits.toSelected hnames
    obtain rfl : bytes = other := by simpa using hfile.symm.trans hvisits.file
    have hread := (readText_of_file hnames hfile).symm.trans
      (readText_of_selected ht hroot hdir hvisits.toSelected)
    cases hd : Text.decode? bytes with
    | none => exact revisedBytes_of_decode?_none hd
    | some text =>
      have htext := hread.symm.trans (textOfBytes_eq_ok_iff.mpr hd)
      rw [revisedBytes_of_decode? hd]
      have hafter := after_of_changed_eq_false (h rel text rfl hvisits htext)
      exact (congrArg Text.encode hafter).trans (Text.encode_of_decode? hd)
  · exact changes_of_forall_ne fun c hmem hnames => hc ⟨c, hmem, hnames⟩

end

/-! ## The effect -/

/-- **The effect of a run over a directory.** The visited files that can be read hold their revisions, all
others what they held; the report lists those that changed and those that cannot be read: the bytes are not
UTF-8 or the path is too long for the system. -/
theorem exec_run_effect (ht : t.wellFormed = true) (hroot : t.resolve here root = .ok base)
    (hdir : t.at? base = some (dir entries)) :
    ∃ report t', t.exec (l.run (storage here) root selection false).run = (.ok report, t') ∧
      l.Effect t root base selection report t' := by
  obtain ⟨files, hfiles⟩ : ∃ files, t.filesBelow here root = some files :=
    ⟨_, filesBelow_eq_some_iff.mpr ⟨base, entries, hroot, hdir, rfl⟩⟩
  obtain ⟨found, hnodup, hmem, hfound⟩ := exists_found selection ht hroot hdir hfiles
  have hselected : ∀ f ∈ found, t.Selected base selection f.1 f.2 := fun f hf =>
    ((hmem f.1 f.2).mp hf).toSelected
  have hupdated := updatedFiles_of_selected (l := l) ht hroot hdir hselected
  have hfailed := failedFiles_of_selected (l := l) ht hroot hdir hselected
  rw [← hfound] at hupdated hfailed
  refine ⟨_, _, exec_lifterRun_of_some ht hfiles, ?_⟩
  constructor
  case revised =>
    intro rel bytes text hvisits hread
    rw [← changes_of_visits ht hroot hdir hfiles hvisits hread]
    exact at?_mapFiles_eq_file hvisits.file
  case kept =>
    intro names bytes hfile h
    rw [← changes_of_unchanged ht hroot hdir hfiles hfile h]
    exact at?_mapFiles_eq_file hfile
  case shape => exact ⟨_, rfl⟩
  case header => exact ⟨rfl, rfl⟩
  case entries =>
    have hle := selection.pairwise_candidates root files
    rw [hfound, List.pairwise_map] at hle
    refine ⟨found, hnodup, hmem, hle.imp fun hfg => Text.bytes_le_iff.mpr hfg, ?_, hupdated, hfailed⟩
    show (selection.candidates root files).length = found.length
    rw [hfound, List.length_map]
  case readable =>
    intro top htop hread
    cases hdir.symm.trans htop
    have hlt := pairwise_candidates_lt selection ht hroot hdir hread hfiles
    rw [hfound, List.pairwise_map] at hlt
    show (l.updatedFiles t here false _).Pairwise _ ∧ (l.failedFiles t here _).Pairwise _ ∧
      ∀ u ∈ l.updatedFiles t here false _, ∀ x ∈ l.failedFiles t here _, u.path ≠ x.path
    rw [hupdated, hfailed]
    exact sorted_of_pairwise_lt (hlt.imp fun hfg => Text.bytes_lt_bytes hfg)

theorem exec_run_effect_sample :
    sample.wellFormed = true ∧
      sample.resolve [] (Settings.standard.rootPath ['.']) = .ok ["src".toList] ∧
      ∃ report t', sample.exec (Lifter.standard.run (storage []) (Settings.standard.rootPath ['.'])
          Settings.standard.selection false).run = (.ok report, t') ∧
        Lifter.standard.Effect sample (Settings.standard.rootPath ['.']) ["src".toList]
          Settings.standard.selection report t' :=
  ⟨wellFormed_sample, resolve_sample_root, exec_run_effect wellFormed_sample resolve_sample_root rfl⟩

/-! ## Files that are not read, and entries with one path -/

/-- A text without a literal in the source directory. -/
def distant : Tree := dir [("src".toList, dir [("abc.ts".toList, file (Text.encode "x\n".toList))])]

/-- The failures of a run that comes to its files in their order. -/
theorem exists_failed_eq (files : List (List Bytes × ByteArray)) (ht : t.wellFormed = true)
    (hroot : t.resolve here root = .ok base) (hdir : t.at? base = some (dir entries))
    (hfiles : t.filesBelow here root = some (files.map fun f => Path.through f.1))
    (hsel : ∀ f ∈ files, t.Selected base selection f.1 f.2)
    (hle : files.Pairwise fun f g =>
      Bytes.shown (Path.through f.1) ≤ Bytes.shown (Path.through g.1)) :
    ∃ r t', t.exec (l.run (storage here) root selection false).run = (.ok r, t') ∧
      r.failed = files.filterMap fun f => Lifter.failedBelow? root f.1 f.2 := by
  refine ⟨_, _, exec_lifterRun_of_some ht hfiles, ?_⟩
  rw [← failedFiles_of_selected (l := l) ht hroot hdir hsel, Selection.candidates_eq_map,
    List.map_map]
  · rfl
  · intro path hpath
    obtain ⟨f, hf, rfl⟩ := List.mem_map.mp hpath
    exact (hsel f hf).selects
  · exact List.pairwise_map.mpr hle

theorem exec_run_distant :
    ∃ r t', distant.exec (Lifter.standard.run (storage []) farRoot Settings.standard.selection
      false).run = (.ok r, t') ∧ r.failed.map FailedFile.path = ["abc.ts".toList] := by
  have hroot : distant.resolve [] farRoot = .ok ["src".toList] := resolve_farRoot rfl
  have hsel : distant.Selected ["src".toList] Settings.standard.selection ["abc.ts".toList]
      (Text.encode "x\n".toList) := ⟨rfl, by decide⟩
  have hfiles : distant.filesBelow [] farRoot = some [Path.through ["abc.ts".toList]] :=
    filesBelow_eq_some_iff.mpr ⟨_, _, hroot, rfl, rfl⟩
  have hlong : maxPathBytes ≤ (Path.join farRoot (Path.through ["abc.ts".toList])).length := by
    rw [length_join_farRoot rfl]
    decide
  have hread : readBelow farRoot ["abc.ts".toList] (Text.encode "x\n".toList) = .error .nameTooLong :=
    if_pos hlong
  obtain ⟨r, t', hrun, hfailed⟩ := exists_failed_eq (l := Lifter.standard)
    [([Text.bytes "abc.ts".toList], Text.encode "x\n".toList)] (by decide) hroot rfl hfiles
    (by simpa using hsel) (List.pairwise_singleton ..)
  refine ⟨r, t', hrun, ?_⟩
  rw [hfailed, List.filterMap_cons, Lifter.failedBelow?, hread]
  rfl

theorem exec_run_twins :
    ∃ r t' x, twins.exec (Lifter.standard.run (storage []) ".".toList Settings.standard.selection
      false).run = (.ok r, t') ∧ r.failed = [x, x] := by
  let files : List (List Bytes × ByteArray) :=
    [([0xFF :: Text.bytes ".ts".toList], ⟨#[255]⟩), ([0xFE :: Text.bytes ".ts".toList], ⟨#[255]⟩)]
  have hsel : ∀ f ∈ files, twins.Selected [] Settings.standard.selection f.1 f.2 := by
    simp only [files, List.forall_mem_cons]
    exact ⟨⟨rfl, by decide⟩, ⟨rfl, by decide⟩, by simp⟩
  obtain ⟨r, t', hrun, hfailed⟩ := exists_failed_eq (l := Lifter.standard) files (by decide) resolve_twins rfl
    filesBelow_twins hsel (by decide)
  exact ⟨r, t', _, hrun, hfailed⟩

/-- The report does not list exactly the files that are not UTF-8, nor each path once. The text in the first
tree needs no change and is reported as failed, and the failures in the second have one path. -/
theorem exec_run_inexact :
    (distant.wellFormed = true ∧
      distant.at? ["src".toList, "abc.ts".toList] = some (file (Text.encode "x\n".toList)) ∧
      (Lifter.standard.revise "abc.ts".toList "x\n".toList).changed = false ∧
      ∃ r t', distant.exec (Lifter.standard.run (storage []) farRoot Settings.standard.selection
        false).run = (.ok r, t') ∧ r.failed.map FailedFile.path = ["abc.ts".toList]) ∧
    twins.wellFormed = true ∧
      ∃ r t' x, twins.exec (Lifter.standard.run (storage []) ".".toList Settings.standard.selection
        false).run = (.ok r, t') ∧ r.failed = [x, x] :=
  ⟨⟨by decide, rfl, by decide, exec_run_distant⟩, by decide, exec_run_twins⟩

end Tree

end Constify
