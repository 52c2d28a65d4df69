import Constify.Proofs.Run.Collection
import Constify.Proofs.Run.Rerun

/-!
# What the place of a file counts for

* `Layout.depth_congr` : only which family names a path has counts for the depth;
* `Lifter.revise_congr` : only the depth of its place counts for the revision of a text;
* `Selection.hasExtension_shown`, `Selection.mem_dropLast_iff` : a family name without a selected extension
  is not what is shown of a file's own name;
* `Tree.Lists` : a candidate that is found below a root;
* `Lifter.Makes` : what a run makes of the file of a candidate, and what it reports of it;
* `Lifter.exists_makes_of_directories` : files with the same text below the same directories are
  treated alike, whatever their names, the order of the directories and the root.
-/

namespace Constify

/-! ## The depth -/

theorem Layout.depth_congr {l : Layout} {p q : Text}
    (h : ∀ name ∈ l.nested ++ l.deep, name ∈ Path.names p ↔ name ∈ Path.names q) :
    l.depth p = l.depth q := by
  have hany : ∀ family : List Text, (∀ name ∈ family, name ∈ l.nested ++ l.deep) →
      (Path.names p).any (family.contains ·) = (Path.names q).any (family.contains ·) := by
    intro family hfamily
    rw [Bool.eq_iff_iff, List.any_eq_true, List.any_eq_true]
    refine exists_congr fun name => ?_
    rw [List.contains_iff_mem]
    exact and_congr_left fun hname => h name (hfamily name hname)
  unfold Layout.depth
  dsimp only
  rw [hany l.nested fun name => List.mem_append_left _,
    hany l.deep fun name => List.mem_append_right _]

theorem Importer.ensure_congr {i : Importer} {p q : Text} (h : i.layout.depth p = i.layout.depth q)
    (content : Text) : i.ensure p content = i.ensure q content := by
  have hstatement : i.statement p = i.statement q := by
    rw [statement, statement, h]
  have hinsert : i.insert p content = i.insert q content := by
    rw [insert, insert, hstatement]
  rw [ensure, ensure, hinsert]

theorem Lifter.revise_congr {l : Lifter} {p q : Text}
    (h : l.importer.layout.depth p = l.importer.layout.depth q) (text : Text) :
    l.revise p text = { l.revise q text with path := p } := by
  unfold revise
  dsimp only
  split
  · rfl
  · rw [Importer.ensure_congr h]

/-! ## Family names and file names -/

namespace Selection

variable {s : Selection} {names : List Bytes}

theorem hasExtension_iff {name : Bytes} (h : Path.IsEntry name) :
    s.hasExtension name = true ↔ ∃ ext : Text, Path.HasExtension name ext.bytes ∧ ext ∈ s.extensions := by
  have hsingle := hasExtension_through_iff (s := s) (List.cons_ne_nil name []) (by simpa using h)
  rwa [Path.through, List.intercalate_singleton] at hsingle

theorem hasExtension_shown {name : Bytes} (hname : Path.IsEntry name) (h : s.hasExtension name = true) :
    s.hasExtension name.shown.bytes = true := by
  obtain ⟨ext, hext, hmem⟩ := (hasExtension_iff hname).mp h
  exact (hasExtension_iff (Path.isEntry_bytes (Path.isEntry_shown hname))).mpr
    ⟨ext, Path.hasExtension_shown hext, hmem⟩

/-- A name without a selected extension is not what is shown of the own name of a selected file. -/
theorem mem_dropLast_iff (hne : names ≠ []) (h : ∀ name ∈ names, Path.IsEntry name)
    (hsel : s.selects (Path.through names) = true) {name : Text} (hname : s.hasExtension name = false) :
    name ∈ (names.map Bytes.shown).dropLast ↔ name ∈ names.map Bytes.shown := by
  have hlast : s.hasExtension (names.getLast hne) = true := by
    rw [selects, Bool.and_eq_true, hasExtension_through_iff hne h] at hsel
    exact (hasExtension_iff (h _ (List.getLast_mem hne))).mpr hsel.1
  have hname : name ≠ (names.getLast hne).shown := by
    rintro rfl
    rw [hasExtension_shown (h _ (List.getLast_mem hne)) hlast] at hname
    cases hname
  have hmap : names.map Bytes.shown = (names.map Bytes.shown).dropLast ++ [(names.getLast hne).shown] := by
    rw [← List.map_dropLast, ← List.map_singleton, ← List.map_append, List.dropLast_append_getLast]
  nth_rewrite 2 [hmap]
  rw [List.mem_append, List.mem_singleton]
  exact (or_iff_left hname).symm

end Selection

/-! ## Runs -/

/-- Listing the files below `root` gives the candidate. -/
def Tree.Lists (t : Tree) (here : List Bytes) (root : Bytes) (selection : Selection) (c : Candidate) :
    Prop :=
  ∃ cs, t.exec (Lifter.listFiles (Tree.storage here) root selection).run = (.ok cs, t) ∧ c ∈ cs

/-- What is made of the file of a candidate that holds the text `before`: it gets the text `after`, with
these hits, and an import is added or not. -/
structure Lifter.Makes (l : Lifter) (t : Tree) (here : List Bytes) (root : Bytes) (selection : Selection)
    (c : Candidate) (before after : Text) (hits : List Hit) (importAdded : Bool) : Prop where
  /-- The revision of the file. -/
  revision : ∀ dryRun, ∃ r t',
    t.exec (l.reviseFile (Tree.storage here) dryRun c.path c.relative).run = (.ok r, t') ∧
      r.after = after ∧ r.hits = hits ∧ r.importAdded = importAdded
  /-- A run over the root leaves the new text in the file, unless it is a dry run. The entries of its
  report are those of different candidates, and that of the file is among them if its text changes. -/
  run : ∀ dryRun, ∃ report t', ∃ changed : List Candidate,
    t.exec (l.run (Tree.storage here) root selection dryRun).run = (.ok report, t') ∧
      t'.readText here c.path = .ok (if dryRun then before else after) ∧
      changed.Nodup ∧ (∀ d ∈ changed, t.Lists here root selection d) ∧ (c ∈ changed ↔ after ≠ before) ∧
      List.Forall₂ (fun u d => u.path = d.relative ∧
        (d = c → u.hits = hits ∧ u.importAdded = importAdded)) report.updated changed

namespace Lifter

variable {l : Lifter} {t : Tree} {here : List Bytes} {root : Bytes} {selection : Selection}
  {c : Candidate} {before : Text}

theorem lists_iff : t.Lists here root selection c ↔
    ∃ files, t.filesBelow here root = some files ∧ c ∈ selection.candidates root files := by
  unfold Tree.Lists
  rw [Tree.exec_listFiles]
  cases t.filesBelow here root with
  | none => simp
  | some files => simp

theorem makes_of_lists (ht : t.wellFormed = true) (h : t.Lists here root selection c)
    (hread : t.readText here c.path = .ok before) :
    l.Makes t here root selection c before (l.revise c.relative before).after
      (l.revise c.relative before).hits (l.revise c.relative before).importAdded := by
  have houtcome := Tree.outcome_of_readText (l := l) hread
  constructor
  case revision =>
    intro dryRun
    rw [Tree.exec_reviseFile ht, houtcome]
    exact ⟨_, _, rfl, rfl, rfl, rfl⟩
  case run =>
    intro dryRun
    obtain ⟨files, hfiles, hc⟩ := lists_iff.mp h
    refine ⟨_, _, _, Tree.exec_lifterRun_of_some ht hfiles, ?_,
      (Tree.nodup_candidates ht hfiles).sublist List.filter_sublist, fun d hd => ?_, ?_,
      Tree.forall₂_filterMap (fun d => updated? dryRun d (l.outcome t here d)) fun d hd u hu => ?_⟩
    · cases dryRun with
      | true => exact hread
      | false =>
        show (t.mapFiles _).readText here c.path = _
        rw [Tree.readText_after (Tree.pairwise_separate ht hfiles) hc, hread]
        rfl
    · exact lists_iff.mpr ⟨files, hfiles, (List.mem_filter.mp hd).1⟩
    · rw [List.mem_filter, and_iff_right hc, houtcome, Tree.isSome_updated?_ok]
      exact Tree.changed_iff
    · obtain ⟨r, hr, -, rfl⟩ := Tree.updated?_eq_some_iff.mp hu
      refine ⟨rfl, ?_⟩
      rintro rfl
      obtain rfl := Except.ok.inj (houtcome.symm.trans hr)
      exact ⟨rfl, rfl⟩

theorem exists_names_of_lists (ht : t.wellFormed = true) (h : t.Lists here root selection c) :
    ∃ names, c.relative = Bytes.shown (Path.through names) ∧ names ≠ [] ∧
      (∀ name ∈ names, Path.IsEntry name) ∧ selection.selects (Path.through names) = true := by
  obtain ⟨files, hfiles, hc⟩ := lists_iff.mp h
  obtain ⟨base, entries, hroot, hdir, -⟩ := Tree.filesBelow_eq_some_iff.mp hfiles
  obtain ⟨names, bytes, hvisits, rfl⟩ := (Tree.mem_candidates_iff ht hroot hdir hfiles).mp hc
  obtain ⟨hne, hnames⟩ := Tree.isName_of_selected ht hdir hvisits.toSelected
  exact ⟨names, rfl, hne, fun name hname => Path.isEntry_of_isName (hnames name hname), hvisits.selects⟩

/-- Only the directories below the root count for whether a family name is in the path. -/
theorem mem_names_iff_of_lists (ht : t.wellFormed = true) (h : t.Lists here root selection c)
    {name : Text} (hname : selection.hasExtension name = false) :
    name ∈ Path.names c.relative ↔ name ∈ (Path.segments c.relative).dropLast := by
  obtain ⟨names, hrelative, hne, hnames, hsel⟩ := exists_names_of_lists ht h
  have hne' : names.map Bytes.shown ≠ [] := by simpa using hne
  have hshown : ∀ text ∈ names.map Bytes.shown, Path.IsEntry text :=
    List.forall_mem_map.mpr fun name hname => Path.isEntry_shown (hnames name hname)
  rw [hrelative, Path.shown_through, Path.ofNames, Path.names_through hne' hshown,
    Path.segments_through hne' fun text htext => (hshown text htext).slash_not_mem]
  exact (Selection.mem_dropLast_iff hne hnames hsel hname).symm

/-- **Only the directories below the root count.** If no family name has a selected extension, then two
files with the same text, in one tree or two and found below any roots, get the same new text, the same
hits and both or neither an import, if the same directories lead to them, in whatever order and how
often, and whatever the files are called. -/
theorem exists_makes_of_directories {t' : Tree} {here' : List Bytes} {root' : Bytes} {c' : Candidate}
    (hfamily : ∀ name ∈ l.importer.layout.nested ++ l.importer.layout.deep,
      selection.hasExtension name = false)
    (ht : t.wellFormed = true) (ht' : t'.wellFormed = true)
    (h : t.Lists here root selection c) (h' : t'.Lists here' root' selection c')
    (hread : t.readText here c.path = .ok before) (hread' : t'.readText here' c'.path = .ok before)
    (hdirectories : ∀ name, name ∈ (Path.segments c.relative).dropLast ↔
      name ∈ (Path.segments c'.relative).dropLast) :
    ∃ after hits importAdded, l.Makes t here root selection c before after hits importAdded ∧
      l.Makes t' here' root' selection c' before after hits importAdded := by
  have hdepth : l.importer.layout.depth c'.relative = l.importer.layout.depth c.relative := by
    refine Layout.depth_congr fun name hname => ?_
    rw [mem_names_iff_of_lists ht' h' (hfamily name hname),
      mem_names_iff_of_lists ht h (hfamily name hname)]
    exact (hdirectories name).symm
  have hmakes := makes_of_lists (l := l) ht' h' hread'
  rw [revise_congr hdepth] at hmakes
  exact ⟨_, _, _, makes_of_lists ht h hread, hmakes⟩

/-! ## Two checkouts -/

theorem lists_of_selected {base rel : List Bytes} {entries : List (Bytes × Tree)} {bytes : ByteArray}
    (ht : t.wellFormed = true) (hroot : t.resolve here root = .ok base)
    (hdir : t.at? base = some (.dir entries)) (hsel : t.Selected base selection rel bytes)
    (hlength : (Path.join root (Path.through rel)).length < Tree.maxPathBytes)
    (hd : Text.decode? bytes = some before) :
    t.Lists here root selection (Candidate.below root (Path.through rel)) ∧
      t.readText here (Path.join root (Path.through rel)) = .ok before := by
  have hfiles := Tree.filesBelow_eq_some_iff.mpr ⟨base, entries, hroot, hdir, rfl⟩
  have hopens : Tree.opens root rel.dropLast = true :=
    Tree.opens_dropLast_of_length_lt (Tree.isName_of_selected ht hdir hsel).2 hlength
  have hfile := hsel.file
  rw [Tree.at?_append_of_dir hdir,
    ← Tree.mem_filesOfEntries_iff_at? (Tree.wellFormed_of_at? ht hdir)] at hfile
  have hresolve := Tree.resolve_join ht hroot hdir hfile
  rw [if_neg (Nat.not_le.mpr hlength)] at hresolve
  have hmem := (Tree.mem_candidates_iff ht hroot hdir hfiles).mpr ⟨rel, bytes, ⟨hsel, hopens⟩, rfl⟩
  exact ⟨lists_iff.mpr ⟨_, hfiles, hmem⟩,
    Tree.readText_eq_ok_iff.mpr ⟨_, bytes, hresolve, hsel.file, hd⟩⟩

/-- A file below a directory and two more of the same name. -/
def stacked : Tree :=
  .dir [("pages".toList, .dir [("pages".toList, .dir [("pages".toList,
    .dir [("b.tsx".toList, .file Tree.nestedText.encode)])])])]

theorem lists_nested :
    Tree.nested.Lists [] "src".toList Settings.standard.selection
        ⟨"src/pages/a.ts".toList, "pages/a.ts".toList⟩ ∧
      Tree.nested.readText [] "src/pages/a.ts".toList = .ok Tree.nestedText := by
  have hroot : Tree.nested.resolve [] "src".toList = .ok ["src".toList] := by
    rw [Tree.resolve_of_taken (by decide)]
    show Tree.resolveFrom Tree.nested Tree.maxLinks [] ["src".toList] = _
    rw [Tree.nested, Tree.resolveFrom_cons_of_child rfl (by decide) rfl (by simp), Tree.resolveFrom_nil]
    rfl
  have hsel : Tree.nested.Selected ["src".toList] Settings.standard.selection
      ["pages".toList, "a.ts".toList] Tree.nestedText.encode := ⟨rfl, by decide⟩
  exact lists_of_selected (by decide) hroot rfl hsel (by decide) (Text.decode?_encode _)

theorem lists_stacked :
    stacked.Lists [] "pages/".toList Settings.standard.selection
        ⟨"pages/pages/pages/b.tsx".toList, "pages/pages/b.tsx".toList⟩ ∧
      stacked.readText [] "pages/pages/pages/b.tsx".toList = .ok Tree.nestedText := by
  have hroot : stacked.resolve [] "pages/".toList = .ok ["pages".toList] := by
    rw [Tree.resolve_of_taken (by decide)]
    show Tree.resolveFrom stacked Tree.maxLinks [] ["pages".toList, []] = _
    rw [stacked, Tree.resolveFrom_cons_of_child rfl (by decide) rfl (by simp),
      Tree.resolveFrom_cons_of_here rfl (Or.inl rfl), Tree.resolveFrom_nil]
    rfl
  have hsel : stacked.Selected ["pages".toList] Settings.standard.selection
      ["pages".toList, "pages".toList, "b.tsx".toList] Tree.nestedText.encode := ⟨rfl, by decide⟩
  exact lists_of_selected (by decide) hroot rfl hsel (by decide) (Text.decode?_encode _)

/-- Two files of different names below `pages`, one of them below two such directories and found from a
root of that name. -/
theorem exists_makes_of_directories_pages :
    (∀ name ∈ Settings.standard.layout.nested ++ Settings.standard.layout.deep,
        Settings.standard.selection.hasExtension name = false) ∧
      (∀ name, name ∈ (Path.segments "pages/a.ts".toList).dropLast ↔
        name ∈ (Path.segments "pages/pages/b.tsx".toList).dropLast) ∧
      ∃ after hits importAdded,
        (⟨Table.standard, Settings.standard.importer⟩ : Lifter).Makes Tree.nested [] "src".toList
          Settings.standard.selection ⟨"src/pages/a.ts".toList, "pages/a.ts".toList⟩ Tree.nestedText
          after hits importAdded ∧
        (⟨Table.standard, Settings.standard.importer⟩ : Lifter).Makes stacked [] "pages/".toList
          Settings.standard.selection
          ⟨"pages/pages/pages/b.tsx".toList, "pages/pages/b.tsx".toList⟩ Tree.nestedText
          after hits importAdded := by
  have hfamily : ∀ name ∈ Settings.standard.layout.nested ++ Settings.standard.layout.deep,
      Settings.standard.selection.hasExtension name = false := by decide
  have hdirectories : ∀ name, name ∈ (Path.segments "pages/a.ts".toList).dropLast ↔
      name ∈ (Path.segments "pages/pages/b.tsx".toList).dropLast := by
    have hone : (Path.segments "pages/a.ts".toList).dropLast = ["pages".toList] := by decide
    have htwo : (Path.segments "pages/pages/b.tsx".toList).dropLast =
      ["pages".toList, "pages".toList] := by decide
    rw [hone, htwo]
    simp
  exact ⟨hfamily, hdirectories, exists_makes_of_directories hfamily (by decide) (by decide)
    lists_nested.1 lists_stacked.1 lists_nested.2 lists_stacked.2 hdirectories⟩

end Lifter

end Constify
