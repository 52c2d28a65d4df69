import Constify.Proofs.Path
import Constify.Proofs.Tree.WellFormed

/-!
# Files below a directory

* `resolveFrom_cons_of_absent`, `resolveFrom_cons_of_child` : a name is looked up in the directory;
* `resolveFrom_append` : a path is read segment after segment;
* `resolveFrom_of_file` : the names of a file lead to it;
* `resolveFrom_segments_join` : a path below a directory is read from there;
* `opens_of_append`, `opens_dropLast_of_length_lt` : the directories on the way can be opened;
* `resolve_join` : where the path of a file below a directory leads, if the system takes the path.
-/

namespace Constify

open PathUnit (slash dot)

namespace Path

theorem isName_iff {name : Bytes} :
    isName name = true ↔ name ≠ [] ∧ name ≠ [dot] ∧ name ≠ [dot, dot] ∧ slash ∉ name ∧
      0 ∉ name ∧ name.length ≤ Tree.maxNameBytes := by
  simp [isName, and_assoc]

theorem isEntry_of_isName {name : Bytes} (h : isName name = true) : IsEntry name :=
  have ⟨hnil, hdot, hdots, hslash, _⟩ := isName_iff.mp h
  ⟨hnil, hdot, hdots, hslash⟩

theorem slash_not_mem {name : Bytes} (h : isName name = true) : slash ∉ name :=
  (isEntry_of_isName h).slash_not_mem

theorem isAbsolute_through {names : List Bytes} (h : ∀ name ∈ names, isName name = true) :
    isAbsolute (through names) = false := by
  cases names with
  | nil => rfl
  | cons name names =>
    obtain ⟨hne, -, -, hslash, -, -⟩ := isName_iff.mp (h name (by simp))
    cases name with
    | nil => exact absurd rfl hne
    | cons c cs =>
      have hc : c ≠ slash := by
        rintro rfl
        exact hslash (by simp)
      cases names <;> simp [through, isAbsolute, List.intercalate_cons_cons, hc]

theorem through_ne_nil {names : List Bytes} (hne : names ≠ [])
    (h : ∀ name ∈ names, isName name = true) : through names ≠ [] := by
  obtain ⟨name, rest, rfl⟩ := List.exists_cons_of_ne_nil hne
  have hname : name ≠ [] := (isName_iff.mp (h name (by simp))).1
  rw [through, Text.intercalate_cons_eq_flatMap]
  exact List.append_ne_nil_of_left_ne_nil hname _

theorem nul_not_mem_join {base : Bytes} {names : List Bytes} (hbase : 0 ∉ base)
    (h : ∀ name ∈ names, isName name = true) : 0 ∉ join base (through names) := by
  intro hmem
  rcases mem_join hmem with hmem | hmem | hmem
  · exact hbase hmem
  · rcases mem_through hmem with hmem | ⟨name, hname, hmem⟩
    · exact absurd hmem (by decide)
    · exact (isName_iff.mp (h name hname)).2.2.2.2.1 hmem
  · exact absurd hmem (by decide)

end Path

namespace Tree

variable {t : Tree} {here base : List Bytes} {entries : List (Bytes × Tree)} {root : Bytes}

/-! ## Following segments -/

theorem resolveFrom_cons_of_absent {links : Nat} {rest : List Bytes} {s : Bytes}
    (h : t.at? here = some (dir entries)) (hs : Path.isName s = true) (hchild : child? s entries = none) :
    resolveFrom t links here (s :: rest) = .error .notFound := by
  obtain ⟨hnil, hdot, hup, -, -, hlong⟩ := Path.isName_iff.mp hs
  rw [resolveFrom_cons h, if_neg (not_or.mpr ⟨hnil, hdot⟩), if_neg hup, if_neg (Nat.not_lt.mpr hlong), hchild]

theorem resolveFrom_cons_of_child {u : Tree} {links : Nat} {rest : List Bytes} {s : Bytes}
    (h : t.at? here = some (dir entries)) (hs : Path.isName s = true) (hchild : child? s entries = some u)
    (hlink : ∀ target, u ≠ link target) :
    resolveFrom t links here (s :: rest) = resolveFrom t links (here ++ [s]) rest := by
  obtain ⟨hnil, hdot, hup, -, -, hlong⟩ := Path.isName_iff.mp hs
  rw [resolveFrom_cons h, if_neg (not_or.mpr ⟨hnil, hdot⟩), if_neg hup, if_neg (Nat.not_lt.mpr hlong), hchild]
  cases u with
  | link target => exact absurd rfl (hlink target)
  | file bytes | dir below => rfl

/-- A path is read segment after segment: what follows is read where the front leads, with the links
that are left. -/
theorem resolveFrom_append (t : Tree) (links : Nat) (here segments rest : List Bytes) :
    ∃ left, resolveFrom t links here (segments ++ rest) =
      (resolveFrom t links here segments).bind fun base => resolveFrom t left base rest := by
  fun_induction resolveFrom t links here segments with
  | case1 links here => exact ⟨links, rfl⟩
  | case2 links here s segments entries hdir hs ih =>
    obtain ⟨left, hleft⟩ := ih
    exact ⟨left, by rw [List.cons_append, resolveFrom_cons hdir, if_pos hs, hleft]⟩
  | case3 links here segments entries hdir hs ih =>
    obtain ⟨left, hleft⟩ := ih
    exact ⟨left, by rw [List.cons_append, resolveFrom_cons hdir, if_neg hs, if_pos rfl, hleft]⟩
  | case4 links here s segments entries hdir hs hup hlong =>
    refine ⟨0, ?_⟩
    rw [List.cons_append, resolveFrom_cons hdir, if_neg hs, if_neg hup, if_pos hlong]
    rfl
  | case5 links here s segments entries hdir hs hup hlong hchild =>
    refine ⟨0, ?_⟩
    rw [List.cons_append, resolveFrom_cons hdir, if_neg hs, if_neg hup, if_neg hlong, hchild]
    rfl
  | case6 here s segments entries hdir hs hup hlong target hchild =>
    refine ⟨0, ?_⟩
    rw [List.cons_append, resolveFrom_cons hdir, if_neg hs, if_neg hup, if_neg hlong, hchild]
    rfl
  | case7 here s segments entries hdir hs hup hlong target hchild links ih =>
    obtain ⟨left, hleft⟩ := ih
    refine ⟨left, ?_⟩
    rw [List.cons_append, resolveFrom_cons hdir, if_neg hs, if_neg hup, if_neg hlong, hchild]
    rw [List.append_assoc] at hleft
    exact hleft
  | case8 links here s segments entries hdir hs hup hlong found hlink hchild ih =>
    obtain ⟨left, hleft⟩ := ih
    refine ⟨left, ?_⟩
    rw [List.cons_append, resolveFrom_cons hdir, if_neg hs, if_neg hup, if_neg hlong, hchild]
    cases found with
    | file bytes => exact hleft
    | link target => exact absurd rfl (hlink target)
    | dir entries => exact hleft
  | case9 links here s segments hdir =>
    exact ⟨0, resolveFrom_cons_of_not_dir fun entries h => hdir entries h⟩

/-- A separator at the end of a path changes nothing if the path leads somewhere. -/
theorem resolveFrom_of_append_nil {links : Nat} {segments : List Bytes}
    (h : resolveFrom t links here (segments ++ [[]]) = .ok base) :
    resolveFrom t links here segments = .ok base := by
  obtain ⟨left, hleft⟩ := resolveFrom_append t links here segments [[]]
  rw [h] at hleft
  cases hs : resolveFrom t links here segments with
  | error fault =>
    rw [hs] at hleft
    cases hleft
  | ok mid =>
    rw [hs] at hleft
    change Except.ok base = resolveFrom t left mid [[]] at hleft
    by_cases hdir : ∃ entries, t.at? mid = some (dir entries)
    · obtain ⟨entries, hdir⟩ := hdir
      rw [resolveFrom_cons hdir, if_pos (Or.inl rfl), resolveFrom_nil] at hleft
      exact hleft.symm
    · rw [resolveFrom_cons_of_not_dir fun entries h => hdir ⟨entries, h⟩] at hleft
      cases hleft

theorem resolveFrom_of_file {names : List Bytes} {bytes : ByteArray} (links : Nat)
    (hdir : t.at? base = some (dir entries)) (hnames : ∀ name ∈ names, Path.isName name = true)
    (h : (dir entries).at? names = some (file bytes)) :
    resolveFrom t links base names = .ok (base ++ names) := by
  induction names generalizing base entries with
  | nil => cases h
  | cons name names ih =>
    have hname : Path.isName name = true := hnames name (by simp)
    rw [at?] at h
    obtain ⟨u, hu, h⟩ := Option.bind_eq_some_iff.mp h
    cases u with
    | link target => cases names <;> cases h
    | file b =>
      rw [resolveFrom_cons_of_child hdir hname hu (by simp)]
      cases names with
      | nil => exact resolveFrom_nil t links (base ++ [name])
      | cons name' names => cases h
    | dir below =>
      rw [resolveFrom_cons_of_child hdir hname hu (by simp)]
      have hbelow : t.at? (base ++ [name]) = some (dir below) := by
        rw [at?_append, hdir]
        show (child? name entries).bind (at? []) = _
        rw [hu]
        rfl
      rw [ih hbelow (fun n hn => hnames n (List.mem_cons_of_mem _ hn)) h, List.append_assoc]
      rfl

/-- The segments of a path below a directory lead to where the names lead in the directory. -/
theorem resolveFrom_segments_join {links : Nat} {names : List Bytes} (hnil : root ≠ [])
    (hroot : resolveFrom t links here (Path.segments root) = .ok base) (hne : names ≠ [])
    (hnames : ∀ name ∈ names, Path.isName name = true) :
    ∃ left, resolveFrom t links here (Path.segments (Path.join root (Path.through names))) =
      resolveFrom t left base names := by
  obtain ⟨front, hjoin, hfront⟩ := Path.segments_join hnil (Path.isAbsolute_through hnames)
  rw [hjoin, Path.segments_through hne fun name hname => Path.slash_not_mem (hnames name hname)]
  have hlead : resolveFrom t links here front = .ok base := by
    rcases hfront with hfront | hfront
    · rwa [hfront] at hroot
    · rw [hfront] at hroot
      exact resolveFrom_of_append_nil hroot
  obtain ⟨left, hleft⟩ := resolveFrom_append t links here front names
  rw [hlead] at hleft
  exact ⟨left, hleft⟩

/-! ## The directories that can be opened -/

theorem opens_of_append {front rest : List Bytes} (hnames : ∀ name ∈ front, Path.isName name = true)
    (h : opens root (front ++ rest) = true) : opens root front = true := by
  by_cases hfront : front = []
  · rw [hfront]
    rfl
  · by_cases hrest : rest = []
    · rwa [hrest, List.append_nil] at h
    · have hlonger : Path.join root (Path.through (front ++ rest)) =
          Path.join root (Path.through front) ++ ([slash] ++ Path.through rest) := by
        rw [← Path.join_append root (Path.through_ne_nil hfront hnames), Path.through,
          Text.intercalate_append_of_ne_nil [slash] hfront hrest, List.append_assoc]
        rfl
      simp only [opens, Bool.or_eq_true, List.isEmpty_iff, List.append_eq_nil_iff, hfront, hrest,
        false_or, and_false, decide_eq_true_eq] at h ⊢
      rw [hlonger, List.length_append] at h
      omega

theorem opens_dropLast_of_length_lt {names : List Bytes}
    (hnames : ∀ name ∈ names, Path.isName name = true)
    (h : (Path.join root (Path.through names)).length < maxPathBytes) :
    opens root names.dropLast = true := by
  have hopens : opens root names = true := by
    rw [opens, decide_eq_true h, Bool.or_true]
  by_cases hne : names = []
  · rw [hne]
    rfl
  · rw [← List.dropLast_append_getLast hne] at hopens
    exact opens_of_append (fun name hname => hnames name (List.mem_of_mem_dropLast hname)) hopens

/-! ## The paths of the files below a directory -/

/-- The path of a file below a directory leads to the file, unless the system does not take a path of
that length. -/
theorem resolve_join {names : List Bytes} {bytes : ByteArray} (ht : t.wellFormed = true)
    (hroot : t.resolve here root = .ok base) (hdir : t.at? base = some (dir entries))
    (h : (names, bytes) ∈ filesOfEntries entries) :
    t.resolve here (Path.join root (Path.through names)) =
      if maxPathBytes ≤ (Path.join root (Path.through names)).length then .error .nameTooLong
      else .ok (base ++ names) := by
  have hwf := wellFormed_of_at? ht hdir
  have hnames : ∀ name ∈ names, Path.isName name = true :=
    isName_of_mem_filesOfEntries (wellFormed_dir_iff.mp hwf).2 _ h
  have hfile := (mem_filesOfEntries_iff_at? hwf).mp h
  have hne : names ≠ [] := by
    rintro rfl
    cases hfile
  have habs := Path.isAbsolute_through hnames
  obtain ⟨hnul, hnil, -, hfrom⟩ := resolve_eq_ok_iff.mp hroot
  unfold resolve
  rw [if_neg (Path.nul_not_mem_join hnul hnames), if_neg (Path.join_ne_nil hnil habs),
    Path.isAbsolute_join hnil habs]
  obtain ⟨left, hleft⟩ := resolveFrom_segments_join hnil hfrom hne hnames
  rw [hleft, resolveFrom_of_file left hdir hnames hfile]

end Tree

end Constify
