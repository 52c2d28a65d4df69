import Mathlib.Data.Char
import Mathlib.Data.List.Lex
import Constify.Proofs.Text.Shown
import Constify.Proofs.Tree.Below
import Constify.Run

/-!
# The files that a run visits

* `Selection.exists_candidates_eq`, `Selection.pairwise_candidates` : the candidates are the selected
  files, each once, in the order of their relative paths as they are shown;
* `Tree.filesBelow_eq_some_iff` : the files below a directory of a tree, as far as its directories can be
  opened;
* `Tree.Selected`, `Tree.Visits`, `Tree.exists_found`, `Tree.mem_candidates_iff` : the candidates are the
  selected ones of these;
* `Tree.Separate`, `Tree.pairwise_separate` : the paths of two candidates lead to two files;
* `Tree.Readable`, `Tree.pairwise_candidates_lt` : below names that are UTF-8 no two candidates are shown
  alike;
* `Tree.sample`, `Tree.twins` : small trees.
-/

namespace Constify

/-! ## Selecting -/

namespace Selection

variable {s : Selection} {root : Bytes}

/-- The candidates are the selected files in some order. -/
theorem exists_candidates_eq (s : Selection) (root : Bytes) {α : Type} (path : α → Bytes)
    (files : List α) :
    ∃ found : List α, found.Perm (files.filter fun f => s.selects (path f)) ∧
      s.candidates root (files.map path) = found.map fun f => Candidate.below root (path f) := by
  let below : α → Candidate := fun f => Candidate.below root (path f)
  refine ⟨(files.filter fun f => s.selects (path f)).mergeSort fun f g =>
    !(decide ((below g).relative < (below f).relative)), List.mergeSort_perm _ _, ?_⟩
  have hsort := List.map_mergeSort (f := below) (l := files.filter fun f => s.selects (path f))
    (r := fun f g => !(decide ((below g).relative < (below f).relative)))
    (s := fun c d => !(decide (d.relative < c.relative))) fun f _ g _ => rfl
  rw [candidates, List.filter_map, List.map_map]
  exact hsort.symm

theorem pairwise_candidates (s : Selection) (root : Bytes) (files : List Bytes) :
    (s.candidates root files).Pairwise fun c d => c.relative ≤ d.relative := by
  have hle : (s.candidates root files).Pairwise fun c d => (!(decide (d.relative < c.relative))) = true := by
    refine List.pairwise_mergeSort (fun a b c hab hbc => ?_) (fun a b => ?_) _
    · simp only [Bool.not_eq_true', decide_eq_false_iff_not, not_lt] at *
      exact le_trans hab hbc
    · simp only [Bool.or_eq_true, Bool.not_eq_true', decide_eq_false_iff_not, not_lt]
      exact le_total a.relative b.relative
  exact hle.imp fun hcd => by simpa using hcd

/-- Selected files that come in order are the candidates as they come. -/
theorem candidates_eq_map {files : List Bytes} (hsel : ∀ f ∈ files, s.selects f = true)
    (hle : files.Pairwise fun f g => f.shown ≤ g.shown) :
    s.candidates root files = files.map (Candidate.below root) := by
  rw [candidates, List.filter_eq_self.mpr hsel]
  refine List.mergeSort_of_pairwise (List.pairwise_map.mpr (hle.imp fun {f g} hfg => ?_))
  rw [Bool.not_eq_true', decide_eq_false_iff_not, not_lt]
  exact hfg

end Selection

/-! ## The candidates of a tree -/

namespace Tree

/-- A file with these bytes stands at the names `rel` below `base`, and the selection takes it. -/
structure Selected (t : Tree) (base : List Bytes) (selection : Selection) (rel : List Bytes)
    (bytes : ByteArray) : Prop where
  file : t.at? (base ++ rel) = some (.file bytes)
  selects : selection.selects (Path.through rel) = true

/-- A run from `root` visits the file: it is selected, and the directory that holds it can be opened. -/
structure Visits (t : Tree) (root : Bytes) (base : List Bytes) (selection : Selection) (rel : List Bytes)
    (bytes : ByteArray) : Prop extends Selected t base selection rel bytes where
  opens : Tree.opens root rel.dropLast = true

/-- The paths of the two candidates do not lead to the same place. -/
def Separate (t : Tree) (here : List Bytes) (c d : Candidate) : Prop :=
  ∀ names, t.resolve here c.path = .ok names → t.resolve here d.path ≠ .ok names

/-- The names that lead to the files of the tree are UTF-8. -/
def Readable (t : Tree) : Prop :=
  ∀ names bytes, t.at? names = some (file bytes) → ∀ name ∈ names, ∃ text : Text, name = text.bytes

section

variable {t : Tree} {here base : List Bytes} {root : Bytes} {entries : List (Bytes × Tree)}
  {files : List Bytes} {selection : Selection}

theorem filesBelow_eq_some_iff :
    t.filesBelow here root = some files ↔
      ∃ base entries, t.resolve here root = .ok base ∧ t.at? base = some (dir entries) ∧
        files = ((filesOfEntries entries).filter fun f => opens root f.1.dropLast).map fun f =>
          Path.through f.1 := by
  unfold filesBelow
  constructor
  · intro h
    split at h
    · next entries hfind =>
      obtain ⟨base, hroot, hdir⟩ := find?_eq_ok_iff.mp hfind
      exact ⟨base, entries, hroot, hdir, (Option.some.inj h).symm⟩
    · cases h
  · rintro ⟨base, entries, hroot, hdir, rfl⟩
    rw [find?_eq_ok_iff.mpr ⟨base, hroot, hdir⟩]

theorem at?_append_of_dir (hdir : t.at? base = some (dir entries)) (rel : List Bytes) :
    t.at? (base ++ rel) = (dir entries).at? rel := by
  rw [at?_append, hdir]
  rfl

theorem isName_of_mem_below (ht : t.wellFormed = true) (hdir : t.at? base = some (dir entries))
    {rel : List Bytes} {bytes : ByteArray} (h : (rel, bytes) ∈ filesOfEntries entries) :
    rel ≠ [] ∧ ∀ name ∈ rel, Path.isName name = true := by
  have hwf := wellFormed_of_at? ht hdir
  refine ⟨?_, isName_of_mem_filesOfEntries (wellFormed_dir_iff.mp hwf).2 _ h⟩
  rintro rfl
  cases (mem_filesOfEntries_iff_at? hwf).mp h

/-- The files behind the candidates, in their order. -/
theorem exists_found (selection : Selection) (ht : t.wellFormed = true)
    (hroot : t.resolve here root = .ok base) (hdir : t.at? base = some (dir entries))
    (h : t.filesBelow here root = some files) :
    ∃ found : List (List Bytes × ByteArray), (found.map Prod.fst).Nodup ∧
      (∀ rel bytes, (rel, bytes) ∈ found ↔ t.Visits root base selection rel bytes) ∧
      selection.candidates root files = found.map fun f => Candidate.below root (Path.through f.1) := by
  obtain ⟨base', entries', hroot', hdir', rfl⟩ := filesBelow_eq_some_iff.mp h
  obtain rfl := Except.ok.inj (hroot.symm.trans hroot')
  cases hdir.symm.trans hdir'
  have hwf := wellFormed_of_at? ht hdir
  have hnodup := nodup_filesOfEntries (wellFormed_dir_iff.mp hwf).1 (wellFormed_dir_iff.mp hwf).2
  obtain ⟨found, hperm, hfound⟩ := selection.exists_candidates_eq root
    (fun f : List Bytes × ByteArray => Path.through f.1)
    ((filesOfEntries entries).filter fun f => opens root f.1.dropLast)
  refine ⟨found, (hperm.map Prod.fst).nodup_iff.mpr ?_, fun rel bytes => ?_, hfound⟩
  · exact hnodup.sublist ((List.filter_sublist.trans List.filter_sublist).map _)
  · rw [hperm.mem_iff, List.mem_filter, List.mem_filter, mem_filesOfEntries_iff_at? hwf,
      ← at?_append_of_dir hdir]
    exact ⟨fun ⟨⟨hfile, hopens⟩, hsel⟩ => ⟨⟨hfile, hsel⟩, hopens⟩,
      fun h => ⟨⟨h.file, h.opens⟩, h.selects⟩⟩

theorem mem_candidates_iff (ht : t.wellFormed = true) (hroot : t.resolve here root = .ok base)
    (hdir : t.at? base = some (dir entries)) (h : t.filesBelow here root = some files)
    {c : Candidate} :
    c ∈ selection.candidates root files ↔
      ∃ rel bytes, t.Visits root base selection rel bytes ∧
        c = Candidate.below root (Path.through rel) := by
  obtain ⟨found, -, hmem, hfound⟩ := exists_found selection ht hroot hdir h
  rw [hfound, List.mem_map]
  constructor
  · rintro ⟨⟨rel, bytes⟩, hf, rfl⟩
    exact ⟨rel, bytes, (hmem rel bytes).mp hf, rfl⟩
  · rintro ⟨rel, bytes, hvisits, rfl⟩
    exact ⟨(rel, bytes), (hmem rel bytes).mpr hvisits, rfl⟩

theorem isName_of_selected (ht : t.wellFormed = true) (hdir : t.at? base = some (dir entries))
    {rel : List Bytes} {bytes : ByteArray} (h : t.Selected base selection rel bytes) :
    rel ≠ [] ∧ ∀ name ∈ rel, Path.isName name = true := by
  have hfile := h.file
  rw [at?_append_of_dir hdir, ← mem_filesOfEntries_iff_at? (wellFormed_of_at? ht hdir)] at hfile
  exact isName_of_mem_below ht hdir hfile

theorem eq_of_through_eq (ht : t.wellFormed = true) (hdir : t.at? base = some (dir entries))
    {rel rel' : List Bytes} {bytes bytes' : ByteArray} (h : t.Selected base selection rel bytes)
    (h' : t.Selected base selection rel' bytes') (heq : Path.through rel = Path.through rel') :
    rel = rel' := by
  obtain ⟨hnil, hnames⟩ := isName_of_selected ht hdir h
  obtain ⟨hnil', hnames'⟩ := isName_of_selected ht hdir h'
  exact Path.through_inj hnil hnil' (fun name hname => Path.slash_not_mem (hnames name hname))
    (fun name hname => Path.slash_not_mem (hnames' name hname)) heq

/-- The path of a selected file leads to it, if it leads anywhere. -/
theorem resolve_eq_of_selected (ht : t.wellFormed = true) (hroot : t.resolve here root = .ok base)
    (hdir : t.at? base = some (dir entries)) {rel names : List Bytes} {bytes : ByteArray}
    (hsel : t.Selected base selection rel bytes)
    (h : t.resolve here (Path.join root (Path.through rel)) = .ok names) : names = base ++ rel := by
  have hwf := wellFormed_of_at? ht hdir
  have hfile := hsel.file
  rw [at?_append_of_dir hdir, ← mem_filesOfEntries_iff_at? hwf] at hfile
  rw [resolve_join ht hroot hdir hfile] at h
  split at h
  · cases h
  · exact (Except.ok.inj h).symm

theorem pairwise_separate (ht : t.wellFormed = true) (h : t.filesBelow here root = some files) :
    (selection.candidates root files).Pairwise (Separate t here) := by
  obtain ⟨base, entries, hroot, hdir, -⟩ := filesBelow_eq_some_iff.mp h
  obtain ⟨found, hnodup, hmem, hfound⟩ := exists_found selection ht hroot hdir h
  rw [hfound, List.pairwise_map]
  refine (List.pairwise_map.mp hnodup).imp_of_mem fun {f g} hf hg hne names hfn hgn => hne ?_
  have hn := resolve_eq_of_selected ht hroot hdir ((hmem _ _).mp hf).toSelected hfn
  rw [resolve_eq_of_selected ht hroot hdir ((hmem _ _).mp hg).toSelected hgn] at hn
  exact (List.append_cancel_left hn).symm

theorem nodup_candidates (ht : t.wellFormed = true) (h : t.filesBelow here root = some files) :
    (selection.candidates root files).Nodup := by
  obtain ⟨base, entries, hroot, hdir, -⟩ := filesBelow_eq_some_iff.mp h
  obtain ⟨found, hnodup, hmem, hfound⟩ := exists_found selection ht hroot hdir h
  rw [hfound, List.Nodup, List.pairwise_map]
  refine (List.pairwise_map.mp hnodup).imp_of_mem fun {f g} hf hg hne heq => hne ?_
  have hsel := ((hmem _ _).mp hf).toSelected
  have hsel' := ((hmem _ _).mp hg).toSelected
  have hpath : Path.through f.1 = Path.through g.1 :=
    Path.join_inj (Path.isAbsolute_through (isName_of_selected ht hdir hsel).2)
      (Path.isAbsolute_through (isName_of_selected ht hdir hsel').2) (congrArg Candidate.path heq)
  exact eq_of_through_eq ht hdir hsel hsel' hpath

/-! ## Names that are UTF-8 -/

theorem bytes_relative_of_readable (hread : (dir entries).Readable)
    (hdir : t.at? base = some (dir entries)) {rel : List Bytes} {bytes : ByteArray}
    (h : t.Selected base selection rel bytes) :
    (Candidate.below root (Path.through rel)).relative.bytes = Path.through rel :=
  Path.bytes_shown_through (hread rel bytes (at?_append_of_dir hdir rel ▸ h.file))

/-- The files are shown by different paths, in the order of their bytes. -/
theorem pairwise_candidates_lt (selection : Selection) (ht : t.wellFormed = true)
    (hroot : t.resolve here root = .ok base) (hdir : t.at? base = some (dir entries))
    (hread : (dir entries).Readable) (h : t.filesBelow here root = some files) :
    (selection.candidates root files).Pairwise fun c d => c.relative < d.relative := by
  obtain ⟨found, hnodup, hmem, hfound⟩ := exists_found selection ht hroot hdir h
  have hne : (selection.candidates root files).Pairwise fun c d => c.relative ≠ d.relative := by
    rw [hfound, List.pairwise_map]
    refine (List.pairwise_map.mp hnodup).imp_of_mem fun {f g} hf hg hne heq => hne ?_
    have hsel := ((hmem _ _).mp hf).toSelected
    have hsel' := ((hmem _ _).mp hg).toSelected
    have hpath := congrArg Text.bytes heq
    rw [bytes_relative_of_readable hread hdir hsel, bytes_relative_of_readable hread hdir hsel'] at hpath
    exact eq_of_through_eq ht hdir hsel hsel' hpath
  exact ((selection.pairwise_candidates root files).and hne).imp fun hcd => lt_of_le_of_ne hcd.1 hcd.2

end

/-! ## Small trees -/

/-- A source directory with a file to revise, a file that is no text and a link, and a file beside it. -/
def sample : Tree :=
  dir [
    ("src".toList, dir [
      ("a.ts".toList, file (Text.encode "f(\"fats\")".toList)),
      ("b.ts".toList, file ⟨#[255]⟩),
      ("c.ts".toList, link "a.ts".toList)]),
    ("d.ts".toList, file (Text.encode "(\"fats\")".toList))]

theorem wellFormed_sample : sample.wellFormed = true := by decide

theorem resolve_sample_root :
    sample.resolve [] (Settings.standard.rootPath ['.']) = .ok ["src".toList] := by
  rw [resolve_of_taken (by decide)]
  show resolveFrom sample maxLinks [] [[PathUnit.dot], "src".toList] = _
  rw [sample, resolveFrom_cons_of_here rfl (Or.inr rfl),
    resolveFrom_cons_of_child rfl (by decide) rfl (by simp), resolveFrom_nil]
  rfl

theorem resolve_sample_settings :
    sample.resolve [] (Path.join ['.'] settingsFile : Text) = .error .notFound := by
  rw [resolve_of_taken (by decide)]
  show resolveFrom sample maxLinks [] [[PathUnit.dot], settingsFile] = _
  rw [sample, resolveFrom_cons_of_here rfl (Or.inr rfl), resolveFrom_cons_of_absent rfl (by decide) rfl]

/-- Two files whose names are not UTF-8 and shown alike. Their bytes are no UTF-8 either. -/
def twins : Tree :=
  dir [
    (0xFF :: Text.bytes ".ts".toList, file ⟨#[255]⟩),
    (0xFE :: Text.bytes ".ts".toList, file ⟨#[255]⟩)]

theorem resolve_twins : twins.resolve [] ".".toList = .ok [] := by
  rw [resolve_of_taken (by decide)]
  show resolveFrom twins maxLinks [] [[PathUnit.dot]] = _
  rw [twins, resolveFrom_cons_of_here rfl (Or.inr rfl), resolveFrom_nil]

theorem filesBelow_twins :
    twins.filesBelow [] ".".toList =
      some [0xFF :: Text.bytes ".ts".toList, 0xFE :: Text.bytes ".ts".toList] :=
  filesBelow_eq_some_iff.mpr ⟨_, _, resolve_twins, rfl, rfl⟩

theorem candidates_twins :
    Settings.standard.selection.candidates ".".toList
        [0xFF :: Text.bytes ".ts".toList, 0xFE :: Text.bytes ".ts".toList] =
      [⟨Text.bytes "./".toList ++ 0xFF :: Text.bytes ".ts".toList, "\uFFFD.ts".toList⟩,
        ⟨Text.bytes "./".toList ++ 0xFE :: Text.bytes ".ts".toList, "\uFFFD.ts".toList⟩] := by
  rw [Selection.candidates_eq_map (by decide) (by decide)]
  decide

end Tree

end Constify
