import Constify.Proofs.Run.Candidates
import Constify.Proofs.Run.Exec

/-!
# Revising files one after the other

* `Lifter.revisedBytes` : the bytes of one file after it was revised;
* `Lifter.outcome`, `Lifter.change` : what revising a candidate gives, and what it does to the tree;
* `Lifter.report` : the report of a run over candidates;
* `exec_reviseFile` : one file;
* `Lifter.changes`, `exec_reviseAll` : a list of files that are apart from each other. Every one is
  read as it was before the run, and the tree after it is the one before with new bytes in the files;
* `changes_of_mem`, `changes_of_forall_ne` : these bytes;
* `mem_updatedFiles_iff`, `forall₂_filterMap` : the entries of the report;
* `exec_lifterRun` : a run over a directory.
-/

namespace Constify

namespace Lifter

/-- The bytes of a file at `place` after it was revised. Bytes that are no text stay as they are. -/
def revisedBytes (l : Lifter) (place : Text) (bytes : ByteArray) : ByteArray :=
  match Text.decode? bytes with
  | some text => (l.revise place text).after.encode
  | none => bytes

/-- The lifter that the standard settings give. -/
def standard : Lifter := ⟨Table.standard, Settings.standard.importer⟩

/-- What revising the file of a candidate gives. -/
def outcome (l : Lifter) (t : Tree) (here : List Bytes) (c : Candidate) : Except Failure Revision :=
  match t.readText here c.path with
  | .ok text => .ok { l.revise c.relative text with path := c.path }
  | .error fault => .error (.file c.path.shown fault.message)

/-- The report's entry for a candidate whose file changed. -/
def updated? (dryRun : Bool) (c : Candidate) : Except Failure Revision → Option UpdatedFile
  | .ok r => if r.changed then some (updatedFile dryRun c.relative r) else none
  | .error _ => none

def failed? (c : Candidate) : Except Failure Revision → Option FailedFile
  | .ok _ => none
  | .error failure => some ⟨c.relative, failure.message⟩

def updatedFiles (l : Lifter) (t : Tree) (here : List Bytes) (dryRun : Bool) (cs : List Candidate) :
    List UpdatedFile :=
  cs.filterMap fun c => updated? dryRun c (l.outcome t here c)

def failedFiles (l : Lifter) (t : Tree) (here : List Bytes) (cs : List Candidate) :
    List FailedFile :=
  cs.filterMap fun c => failed? c (l.outcome t here c)

/-- The report of a run over the files of candidates below `root`. -/
def report (l : Lifter) (t : Tree) (here : List Bytes) (root : Bytes) (dryRun : Bool)
    (cs : List Candidate) : Report where
  root := root.shown
  dryRun := dryRun
  scanned := cs.length
  updated := l.updatedFiles t here dryRun cs
  failed := l.failedFiles t here cs

/-- What revising the file of a candidate does to the bytes of the files. -/
def change (l : Lifter) (t : Tree) (here : List Bytes) (c : Candidate) :
    List Bytes → ByteArray → ByteArray :=
  fun names bytes =>
    if t.resolve here c.path = .ok names then l.revisedBytes c.relative bytes else bytes

/-- What revising the files of candidates one after the other does to the bytes of the files. -/
def changes (l : Lifter) (t : Tree) (here : List Bytes) :
    List Candidate → List Bytes → ByteArray → ByteArray
  | [], _, bytes => bytes
  | c :: cs, names, bytes => changes l t here cs names (l.change t here c names bytes)

end Lifter

namespace Tree

variable {l : Lifter} {t : Tree} {here names : List Bytes} {path : Bytes} {c : Candidate}
  {dryRun : Bool}

/-! ## One file -/

theorem revisedBytes_of_decode? {place text : Text} {bytes : ByteArray}
    (h : Text.decode? bytes = some text) :
    l.revisedBytes place bytes = (l.revise place text).after.encode := by
  unfold Lifter.revisedBytes
  rw [h]

theorem revisedBytes_of_decode?_none {place : Text} {bytes : ByteArray}
    (h : Text.decode? bytes = none) : l.revisedBytes place bytes = bytes := by
  unfold Lifter.revisedBytes
  rw [h]

/-- A path never leads to the top of a tree that is a file. -/
theorem ne_nil_of_resolve {bytes : ByteArray} (h : t.resolve here path = .ok names)
    (hfile : t.at? names = some (file bytes)) : names ≠ [] := by
  rintro rfl
  cases hfile
  obtain ⟨-, -, -, h⟩ := resolve_eq_ok_iff.mp h
  obtain ⟨s, rest, hs⟩ := List.exists_cons_of_ne_nil (List.splitOn_ne_nil PathUnit.slash path)
  rw [Path.segments, hs, resolveFrom_cons_of_not_dir] at h
  · cases h
  · intro entries hdir
    split at hdir
    · cases hdir
    · cases here <;> cases hdir

theorem mapFiles_change_of_ok {text : Text} {bytes : ByteArray} (ht : t.wellFormed = true)
    (h : t.resolve here c.path = .ok names) (hfile : t.at? names = some (file bytes))
    (hd : Text.decode? bytes = some text) :
    t.mapFiles (l.change t here c) =
      t.mapFiles (replaceAt names (l.revise c.relative text).after.encode) := by
  refine mapFiles_congr fun ⟨other, b⟩ hx => ?_
  have hother := (mem_files_iff ht).mp hx
  unfold Lifter.change replaceAt
  rw [h]
  by_cases heq : other = names
  · subst heq
    rw [hfile] at hother
    cases hother
    rw [if_pos rfl, if_pos rfl, revisedBytes_of_decode? hd]
  · rw [if_neg (fun hok => heq (Except.ok.inj hok).symm), if_neg heq]

theorem mapFiles_change_of_error {fault : ReadFault} (ht : t.wellFormed = true)
    (h : t.readText here c.path = .error fault) : t.mapFiles (l.change t here c) = t := by
  refine mapFiles_eq_self fun ⟨other, b⟩ hx => ?_
  unfold Lifter.change
  split
  · next hok =>
    rw [readText_of_file hok ((mem_files_iff ht).mp hx), textOfBytes] at h
    split at h
    · cases h
    · next hd => exact revisedBytes_of_decode?_none hd
  · rfl

theorem mapFiles_replaceAt_self {bytes : ByteArray} (ht : t.wellFormed = true)
    (hfile : t.at? names = some (file bytes)) : t.mapFiles (replaceAt names bytes) = t := by
  refine mapFiles_eq_self fun ⟨other, b⟩ hx => ?_
  unfold replaceAt
  split
  · next heq =>
    have hother := (mem_files_iff ht).mp hx
    rw [show other = names from heq, hfile] at hother
    cases hother
    rfl
  · rfl

theorem revise_before (place text : Text) : (l.revise place text).before = text := by
  unfold Lifter.revise
  dsimp only
  split <;> rfl

theorem exec_reviseFile (ht : t.wellFormed = true) :
    t.exec (l.reviseFile (storage here) dryRun c.path c.relative).run =
      (l.outcome t here c, if dryRun then t else t.mapFiles (l.change t here c)) := by
  unfold Lifter.reviseFile Lifter.outcome
  rw [exec_liftM_bind, exec_readText]
  cases hread : t.readText here c.path with
  | error fault =>
    rw [mapFiles_change_of_error ht hread, ite_self]
    rfl
  | ok text =>
    obtain ⟨names, bytes, hr, hfile, hd⟩ := readText_eq_ok_iff.mp hread
    rw [mapFiles_change_of_ok ht hr hfile hd]
    dsimp only
    split
    · next hw =>
      simp only [Bool.and_eq_true, Bool.not_eq_true'] at hw
      rw [exec_liftM_bind, exec_writeText, writeText_of_file hr hfile, hw.2,
        alter_eq_mapFiles ht (ne_nil_of_resolve hr hfile) hfile]
      rfl
    · next hw =>
      cases dryRun with
      | true => rfl
      | false =>
        have hsame : (l.revise c.relative text).after = text := by
          simpa [Revision.changed, revise_before] using hw
        rw [hsame, Text.encode_of_decode? hd, mapFiles_replaceAt_self ht hfile]
        rfl

theorem outcome_of_readText {text : Text} (h : t.readText here c.path = .ok text) :
    l.outcome t here c = .ok { l.revise c.relative text with path := c.path } := by
  rw [Lifter.outcome, h]

theorem changed_iff {place text : Text} {path : Bytes} :
    Revision.changed { l.revise place text with path } = true ↔ (l.revise place text).after ≠ text := by
  rw [Revision.changed, bne_iff_ne, revise_before]

/-! ## Files one after the other -/

theorem exec_reviseAll_cons {cs : List Candidate} :
    t.exec (l.reviseAll (storage here) dryRun (c :: cs)) =
      let first := t.exec (l.reviseFile (storage here) dryRun c.path c.relative).run
      let rest := first.2.exec (l.reviseAll (storage here) dryRun cs)
      (((Lifter.updated? dryRun c first.1).toList ++ rest.1.1,
        (Lifter.failed? c first.1).toList ++ rest.1.2), rest.2) := by
  rw [Lifter.reviseAll, exec_bind]
  generalize t.exec (l.reviseFile (storage here) dryRun c.path c.relative).run = first
  obtain ⟨r, t'⟩ := first
  rw [exec_bind]
  dsimp only
  generalize t'.exec (l.reviseAll (storage here) dryRun cs) = rest
  cases r with
  | error failure => rfl
  | ok r =>
    simp only [Lifter.updated?, Lifter.failed?]
    split <;> rfl

theorem change_mapFiles (f : List Bytes → ByteArray → ByteArray) :
    l.change (mapFiles f t) here c = l.change t here c := by
  funext names bytes
  simp only [Lifter.change, resolve_mapFiles]

theorem changes_mapFiles (f : List Bytes → ByteArray → ByteArray) (cs : List Candidate) :
    l.changes (mapFiles f t) here cs = l.changes t here cs := by
  funext names bytes
  induction cs generalizing bytes with
  | nil => rfl
  | cons c cs ih => rw [Lifter.changes, Lifter.changes, ih, change_mapFiles]

theorem separate_mapFiles (f : List Bytes → ByteArray → ByteArray) :
    Separate (mapFiles f t) here = Separate t here := by
  funext c d
  simp only [Separate, resolve_mapFiles]

theorem outcome_mapFiles_change {d : Candidate} (h : Separate t here c d) :
    l.outcome (t.mapFiles (l.change t here c)) here d = l.outcome t here d := by
  have hread : (t.mapFiles (l.change t here c)).readText here d.path = t.readText here d.path := by
    refine readText_mapFiles_of_eq fun names bytes hd _ => ?_
    exact if_neg fun hc => h names hc hd
  rw [Lifter.outcome, Lifter.outcome, hread]

theorem updatedFiles_congr {t' : Tree} {cs : List Candidate}
    (h : ∀ c ∈ cs, l.outcome t here c = l.outcome t' here c) :
    l.updatedFiles t here dryRun cs = l.updatedFiles t' here dryRun cs :=
  List.filterMap_congr fun c hc => by rw [h c hc]

theorem failedFiles_congr {t' : Tree} {cs : List Candidate}
    (h : ∀ c ∈ cs, l.outcome t here c = l.outcome t' here c) :
    l.failedFiles t here cs = l.failedFiles t' here cs :=
  List.filterMap_congr fun c hc => by rw [h c hc]

theorem updatedFiles_cons (cs : List Candidate) :
    l.updatedFiles t here dryRun (c :: cs) =
      (Lifter.updated? dryRun c (l.outcome t here c)).toList ++ l.updatedFiles t here dryRun cs := by
  simp only [Lifter.updatedFiles, List.filterMap_eq_flatMap_toList, List.flatMap_cons]

theorem failedFiles_cons (cs : List Candidate) :
    l.failedFiles t here (c :: cs) =
      (Lifter.failed? c (l.outcome t here c)).toList ++ l.failedFiles t here cs := by
  simp only [Lifter.failedFiles, List.filterMap_eq_flatMap_toList, List.flatMap_cons]

/-- Revising files that are apart from each other. Every entry of the report is that of the file as
it was before, and the tree is the one before with new bytes in the files. -/
theorem exec_reviseAll {cs : List Candidate} (ht : t.wellFormed = true)
    (hcs : cs.Pairwise (Separate t here)) :
    t.exec (l.reviseAll (storage here) dryRun cs) =
      ((l.updatedFiles t here dryRun cs, l.failedFiles t here cs),
        if dryRun then t else t.mapFiles (l.changes t here cs)) := by
  induction cs generalizing t with
  | nil =>
    have hnil : t.mapFiles (l.changes t here []) = t := mapFiles_eq_self fun _ _ => rfl
    rw [hnil, ite_self]
    rfl
  | cons c cs ih =>
    obtain ⟨hc, hcs⟩ := List.pairwise_cons.mp hcs
    rw [exec_reviseAll_cons, exec_reviseFile ht, updatedFiles_cons, failedFiles_cons]
    dsimp only
    cases dryRun with
    | true => rw [if_pos rfl, ih ht hcs, if_pos rfl, if_pos rfl]
    | false =>
      have hsame : ∀ d ∈ cs,
          l.outcome (t.mapFiles (l.change t here c)) here d = l.outcome t here d :=
        fun d hd => outcome_mapFiles_change (hc d hd)
      have ht' : (t.mapFiles (l.change t here c)).wellFormed = true := by
        rw [wellFormed_mapFiles, ht]
      have hrest := ih ht' (by rwa [separate_mapFiles])
      rw [updatedFiles_congr hsame, failedFiles_congr hsame, changes_mapFiles] at hrest
      simp only [Bool.false_eq_true, if_false] at hrest ⊢
      rw [hrest, mapFiles_mapFiles]
      rfl

/-! ## The bytes after a run -/

theorem changes_of_forall_ne {cs : List Candidate} {bytes : ByteArray}
    (h : ∀ c ∈ cs, t.resolve here c.path ≠ .ok names) : l.changes t here cs names bytes = bytes := by
  induction cs with
  | nil => rfl
  | cons c cs ih =>
    have hc : l.change t here c names bytes = bytes := if_neg (h c (by simp))
    rw [Lifter.changes, hc, ih fun d hd => h d (List.mem_cons_of_mem _ hd)]

theorem changes_of_mem {cs : List Candidate} {bytes : ByteArray}
    (hcs : cs.Pairwise (Separate t here)) (hc : c ∈ cs) (h : t.resolve here c.path = .ok names) :
    l.changes t here cs names bytes = l.revisedBytes c.relative bytes := by
  induction cs with
  | nil => cases hc
  | cons d cs ih =>
    obtain ⟨hd, hcs⟩ := List.pairwise_cons.mp hcs
    rw [Lifter.changes]
    rcases List.mem_cons.mp hc with rfl | hc
    · have hchange : l.change t here c names bytes = l.revisedBytes c.relative bytes := if_pos h
      rw [hchange, changes_of_forall_ne fun d hmem => hd d hmem names h]
    · have hsame : l.change t here d names bytes = bytes := if_neg fun hok => hd c hc names hok h
      rw [hsame, ih hcs hc]

/-! ## The entries of the report -/

theorem updated?_eq_some_iff {c : Candidate} {result : Except Failure Revision} {u : UpdatedFile} :
    Lifter.updated? dryRun c result = some u ↔
      ∃ r, result = .ok r ∧ r.changed = true ∧ u = Lifter.updatedFile dryRun c.relative r := by
  cases result with
  | error failure => simp [Lifter.updated?]
  | ok r =>
    rw [Lifter.updated?, Option.ite_none_right_eq_some]
    simp only [Option.some.injEq, Except.ok.injEq, exists_eq_left', eq_comm (b := u)]

theorem isSome_updated?_ok (c : Candidate) (r : Revision) :
    (Lifter.updated? dryRun c (.ok r)).isSome = r.changed := by
  rw [Lifter.updated?]
  cases r.changed <;> rfl

theorem mem_updatedFiles_iff {cs : List Candidate} {u : UpdatedFile} :
    u ∈ l.updatedFiles t here dryRun cs ↔
      ∃ c ∈ cs, ∃ r, l.outcome t here c = .ok r ∧ r.changed = true ∧
        u = Lifter.updatedFile dryRun c.relative r := by
  unfold Lifter.updatedFiles
  rw [List.mem_filterMap]
  simp only [updated?_eq_some_iff]

/-- What a list is mapped to comes from a part of it, in the same order. -/
theorem forall₂_filterMap {α β : Type} {p : β → α → Prop} (f : α → Option β) {as : List α}
    (h : ∀ a ∈ as, ∀ b, f a = some b → p b a) :
    List.Forall₂ p (as.filterMap f) (as.filter fun a => (f a).isSome) := by
  induction as with
  | nil => exact List.Forall₂.nil
  | cons a as ih =>
    have htail := ih fun a ha => h a (List.mem_cons_of_mem _ ha)
    cases hb : f a with
    | none => rwa [List.filterMap_cons_none hb, List.filter_cons_of_neg (by simp [hb])]
    | some b =>
      rw [List.filterMap_cons_some hb, List.filter_cons_of_pos (by simp [hb])]
      exact htail.cons (h a (List.mem_cons_self ..) b hb)

/-! ## Whole runs -/

theorem exec_lifterRun {root : Bytes} {selection : Selection} (ht : t.wellFormed = true) :
    t.exec (l.run (storage here) root selection dryRun).run =
      match t.filesBelow here root with
      | none => (.error (.rootNotFound root.shown), t)
      | some files =>
        (.ok (l.report t here root dryRun (selection.candidates root files)),
          if dryRun then t
          else t.mapFiles (l.changes t here (selection.candidates root files))) := by
  unfold Lifter.run
  rw [exec_run_bind, exec_listFiles]
  cases hfiles : t.filesBelow here root with
  | none => rfl
  | some files =>
    dsimp only
    rw [exec_lift_bind, exec_reviseAll ht (pairwise_separate ht hfiles)]
    rfl

theorem exec_lifterRun_of_some {root : Bytes} {selection : Selection} {files : List Bytes}
    (ht : t.wellFormed = true) (hfiles : t.filesBelow here root = some files) :
    t.exec (l.run (storage here) root selection dryRun).run =
      (.ok (l.report t here root dryRun (selection.candidates root files)),
        if dryRun then t
        else t.mapFiles (l.changes t here (selection.candidates root files))) := by
  rw [exec_lifterRun ht, hfiles]

end Tree

end Constify
