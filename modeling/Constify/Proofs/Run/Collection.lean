import Constify.Proofs.Run.Candidates
import Constify.Proofs.Run.Exec
import Constify.Proofs.Selection
import Constify.Proofs.Text.ByteOrder

/-!
# The files that are listed

* `Tree.Walk` : what a walk of a tree finds, one step after the other;
* `Tree.walk_iff`, `Tree.walk_opens_iff` : it finds the files that stand below the directories that it
  enters;
* `Selection.Collects` : the candidates of such a walk, each once and in order;
* `Tree.exec_listFiles_exact` : listing the files below a directory gives these;
* `Tree.exec_listFiles_nested`, `Tree.exec_listFiles_inexact` : a file in a directory that cannot be opened
  is not among them, and two files may be listed under one relative path.
-/

namespace Constify

open PathUnit (slash dot)

namespace Tree

/-- A walk that comes to the tree `t` by the names `front` finds a file at `names`. It goes into the
directories that `enters` allows, and through no link. -/
inductive Walk (enters : List Bytes → Bool) : List Bytes → Tree → List Bytes → ByteArray → Prop
  | file (names : List Bytes) (bytes : ByteArray) : Walk enters names (file bytes) names bytes
  | entry {front names : List Bytes} {entries : List (Bytes × Tree)} {name : Bytes} {t : Tree}
      {bytes : ByteArray} : enters front = true → (name, t) ∈ entries →
      Walk enters (front ++ [name]) t names bytes → Walk enters front (dir entries) names bytes

end Tree

/-- The candidates are the files that a walk from `top` finds and the selection takes, where the walk
enters the directories that can be opened from `root`. -/
structure Selection.Collects (s : Selection) (root : Bytes) (top : Tree) (cs : List Candidate) :
    Prop where
  /-- There is one candidate for each file. -/
  files : ∃ found : List (List Bytes), found.Nodup ∧
    (∀ names, names ∈ found ↔
      (∃ bytes, Tree.Walk (Tree.opens root) [] top names bytes) ∧ s.Takes names) ∧
    cs = found.map fun names =>
      ⟨Path.join root (Path.through names), Bytes.shown (Path.through names)⟩
  sorted : cs.Pairwise fun c d => c.relative.bytes ≤ d.relative.bytes
  /-- Below names that are UTF-8 no two relative paths are the same, and they are shown as they are. -/
  readable : top.Readable → (cs.Pairwise fun c d => c.relative.bytes < d.relative.bytes) ∧
    ∀ c ∈ cs, c.path = Path.join root c.relative.bytes

namespace Tree

variable {enters : List Bytes → Bool} {t : Tree} {here front names : List Bytes} {root : Bytes}
  {entries : List (Bytes × Tree)} {bytes : ByteArray} {selection : Selection} {cs : List Candidate}

/-! ## Walks -/

theorem walk_of_at? {rest : List Bytes} (hat : t.at? rest = some (file bytes))
    (henters : ∀ a b, rest = a ++ b → b ≠ [] → enters (front ++ a) = true) :
    Walk enters front t (front ++ rest) bytes := by
  induction rest generalizing front t with
  | nil =>
    cases hat
    rw [List.append_nil]
    exact Walk.file front bytes
  | cons name rest ih =>
    cases t with
    | file b => cases hat
    | link target => cases hat
    | dir entries =>
      rw [at?] at hat
      obtain ⟨u, hu, hat⟩ := Option.bind_eq_some_iff.mp hat
      have hfront : enters front = true := by
        simpa using henters [] (name :: rest) rfl (by simp)
      have hrest : Walk enters (front ++ [name]) u (front ++ [name] ++ rest) bytes := by
        refine ih hat fun a b hab hb => ?_
        rw [List.append_assoc]
        exact henters (name :: a) b (by rw [hab]; rfl) hb
      rw [List.append_assoc] at hrest
      exact Walk.entry hfront (mem_of_child? hu) hrest

theorem at?_of_walk (ht : t.wellFormed = true) (h : Walk enters front t names bytes) :
    ∃ rest, names = front ++ rest ∧ t.at? rest = some (file bytes) ∧
      ∀ a b, rest = a ++ b → b ≠ [] → enters (front ++ a) = true := by
  induction h with
  | file names bytes =>
    refine ⟨[], (List.append_nil names).symm, rfl, fun a b hab hb => ?_⟩
    exact absurd (List.append_eq_nil_iff.mp hab.symm).2 hb
  | @entry front names entries name u bytes hfront hmem _ ih =>
    have hwf := wellFormed_dir_iff.mp ht
    obtain ⟨rest, rfl, hat, henters⟩ := ih (wellFormedEntries_iff.mp hwf.2 _ hmem).2
    refine ⟨name :: rest, by simp, ?_, fun a b hab hb => ?_⟩
    · rw [at?, child?_of_mem hwf.1 hmem]
      exact hat
    · cases a with
      | nil => rwa [List.append_nil]
      | cons n a =>
        obtain ⟨rfl, rfl⟩ := List.cons.inj hab
        simpa using henters a b rfl hb

/-- A walk finds the files that stand below directories, all of which it enters. -/
theorem walk_iff (ht : t.wellFormed = true) :
    Walk enters front t names bytes ↔
      ∃ rest, names = front ++ rest ∧ t.at? rest = some (file bytes) ∧
        ∀ a b, rest = a ++ b → b ≠ [] → enters (front ++ a) = true := by
  refine ⟨at?_of_walk ht, ?_⟩
  rintro ⟨rest, rfl, hat, henters⟩
  exact walk_of_at? hat henters

theorem isName_of_at? (ht : (dir entries).wellFormed = true)
    (hat : (dir entries).at? names = some (file bytes)) :
    names ≠ [] ∧ ∀ name ∈ names, Path.isName name = true :=
  have hdir : (dir entries).at? [] = some (dir entries) := rfl
  isName_of_mem_below ht hdir ((mem_filesOfEntries_iff_at? ht).mpr hat)

/-- If the directory that holds a file can be opened, a walk comes to it. -/
theorem walk_opens_iff (ht : (dir entries).wellFormed = true) :
    Walk (opens root) [] (dir entries) names bytes ↔
      (dir entries).at? names = some (file bytes) ∧ opens root names.dropLast = true := by
  rw [walk_iff ht]
  constructor
  · rintro ⟨rest, rfl, hat, hopens⟩
    have hne := (isName_of_at? ht hat).1
    exact ⟨hat, hopens _ _ (List.dropLast_append_getLast hne).symm (by simp)⟩
  · rintro ⟨hat, hopens⟩
    obtain ⟨-, hnames⟩ := isName_of_at? ht hat
    refine ⟨names, rfl, hat, ?_⟩
    rintro a b rfl hb
    rw [List.dropLast_append_of_ne_nil hb] at hopens
    exact opens_of_append (fun name hname => hnames name (List.mem_append_left _ hname)) hopens

/-! ## Listing files -/

theorem visits_iff_walk (ht : t.wellFormed = true) {base : List Bytes}
    (hdir : t.at? base = some (dir entries)) :
    t.Visits root base selection names bytes ↔
      Walk (opens root) [] (dir entries) names bytes ∧ selection.Takes names := by
  have hwf := wellFormed_of_at? ht hdir
  rw [walk_opens_iff hwf]
  constructor
  · rintro ⟨⟨hat, hsel⟩, hopens⟩
    rw [at?_append_of_dir hdir] at hat
    obtain ⟨hne, hnames⟩ := isName_of_at? hwf hat
    exact ⟨⟨hat, hopens⟩, (Selection.selects_through_iff hne hnames).mp hsel⟩
  · rintro ⟨⟨hat, hopens⟩, htakes⟩
    obtain ⟨hne, hnames⟩ := isName_of_at? hwf hat
    refine ⟨⟨?_, (Selection.selects_through_iff hne hnames).mpr htakes⟩, hopens⟩
    rw [at?_append_of_dir hdir, hat]

theorem collects_candidates (ht : t.wellFormed = true) {files : List Bytes}
    (hfind : t.find? here root = .ok (dir entries)) (h : t.filesBelow here root = some files) :
    selection.Collects root (dir entries) (selection.candidates root files) := by
  obtain ⟨base, hroot, hdir⟩ := find?_eq_ok_iff.mp hfind
  constructor
  case files =>
    obtain ⟨found, hnodup, hmem, hfound⟩ := exists_found selection ht hroot hdir h
    refine ⟨found.map Prod.fst, hnodup, fun names => ?_, by rw [hfound, List.map_map]; rfl⟩
    have hnames : names ∈ found.map Prod.fst ↔ ∃ bytes, (names, bytes) ∈ found := by simp
    simp only [hnames, hmem, visits_iff_walk ht hdir, exists_and_right]
  case sorted =>
    exact (selection.pairwise_candidates root files).imp fun hcd => Text.bytes_le_iff.mpr hcd
  case readable =>
    intro hread
    have hlt := pairwise_candidates_lt selection ht hroot hdir hread h
    refine ⟨hlt.imp fun hcd => Text.bytes_lt_bytes hcd, ?_⟩
    intro c hc
    obtain ⟨rel, bytes, hvisits, rfl⟩ := (mem_candidates_iff ht hroot hdir h).mp hc
    rw [bytes_relative_of_readable hread hdir hvisits.toSelected]
    rfl

/-- **Listing files is exact.** It fails exactly if the root leads to no directory. Else there is one
candidate for each file that a walk from there finds and the selection takes, in the order of the
bytes of their relative paths as they are shown. Each path is the root as given with the names that lead
to the file behind it, and these are shown as they are if they are UTF-8. -/
theorem exec_listFiles_exact (ht : t.wellFormed = true) (here : List Bytes) (root : Bytes)
    (selection : Selection) :
    (t.exec (Lifter.listFiles (storage here) root selection).run = (.error (.rootNotFound root), t) ↔
      ∀ entries, t.find? here root ≠ .ok (dir entries)) ∧
    ∀ entries, t.find? here root = .ok (dir entries) →
      ∃ cs, t.exec (Lifter.listFiles (storage here) root selection).run = (.ok cs, t) ∧
        selection.Collects root (dir entries) cs := by
  rw [exec_listFiles]
  cases hfiles : t.filesBelow here root with
  | none =>
    have hnone : ∀ entries, t.find? here root ≠ .ok (dir entries) := by
      intro entries hfind
      unfold filesBelow at hfiles
      rw [hfind] at hfiles
      cases hfiles
    exact ⟨iff_of_true rfl hnone, fun entries hfind => absurd hfind (hnone entries)⟩
  | some files =>
    obtain ⟨base, entries, hroot, hdir, -⟩ := filesBelow_eq_some_iff.mp hfiles
    have hfind : t.find? here root = .ok (dir entries) := find?_eq_ok_iff.mpr ⟨base, hroot, hdir⟩
    refine ⟨iff_of_false (by simp) fun hnone => hnone entries hfind, fun entries' hfind' => ?_⟩
    exact ⟨_, rfl, collects_candidates ht hfind' hfiles⟩

/-- With a link that is not listed. -/
theorem exec_listFiles_exact_sample :
    sample.wellFormed = true ∧
      ∃ entries cs, sample.find? [] (Settings.standard.rootPath ['.']) = .ok (dir entries) ∧
        sample.exec (Lifter.listFiles (storage []) (Settings.standard.rootPath ['.'])
          Settings.standard.selection).run = (.ok cs, sample) ∧
        Settings.standard.selection.Collects (Settings.standard.rootPath ['.']) (dir entries) cs := by
  have hfind := find?_eq_ok_iff.mpr ⟨_, resolve_sample_root, rfl⟩
  obtain ⟨cs, hexec, hcollects⟩ := (exec_listFiles_exact wellFormed_sample [] _ _).2 _ hfind
  exact ⟨wellFormed_sample, _, cs, hfind, hexec, hcollects⟩

/-! ## A directory that cannot be opened -/

def dots (n : Nat) : Bytes := (List.replicate n [dot, slash]).flatten

theorem dots_succ (n : Nat) : dots (n + 1) = [dot, slash] ++ dots n := by
  rw [dots, List.replicate_succ, List.flatten_cons]
  rfl

theorem segments_dots (n : Nat) (path : Bytes) :
    Path.segments (dots n ++ path) = List.replicate n [dot] ++ Path.segments path := by
  induction n with
  | zero => rfl
  | succ n ih =>
    rw [dots_succ, List.append_assoc, List.replicate_succ]
    show Path.segments ([dot] ++ slash :: (dots n ++ path)) = [dot] :: (_ ++ Path.segments path)
    rw [← ih]
    exact Path.segments_append_cons [dot] (dots n ++ path)

theorem length_dots (n : Nat) : (dots n).length = 2 * n := by
  rw [dots, List.length_flatten, List.map_replicate, List.sum_replicate_nat, Nat.mul_comm]
  rfl

theorem mem_dots {n : Nat} {b : UInt8} (h : b ∈ dots n) : b = dot ∨ b = slash := by
  obtain ⟨step, hstep, hb⟩ := List.mem_flatten.mp h
  rw [List.eq_of_mem_replicate hstep] at hb
  simpa using hb

/-- The segments `.` lead nowhere. -/
theorem resolveFrom_replicate (hdir : t.at? here = some (dir entries)) (links n : Nat)
    (rest : List Bytes) :
    resolveFrom t links here (List.replicate n [dot] ++ rest) = resolveFrom t links here rest := by
  induction n with
  | zero => rfl
  | succ n ih =>
    rw [List.replicate_succ, List.cons_append, resolveFrom_cons_of_here hdir (Or.inr rfl), ih]

def nestedText : Text := "f(\"fats\")\n".toList

def nested : Tree :=
  dir [("src".toList, dir [("pages".toList, dir [("a.ts".toList, file nestedText.encode)])])]

/-- A path of 4091 bytes that leads to the source directory. -/
def farRoot : Bytes := dots 2044 ++ Text.bytes "src".toList

theorem length_farRoot : farRoot.length = 4091 := by
  rw [farRoot, List.length_append, length_dots]
  rfl

theorem resolve_farRoot {entries below : List (Bytes × Tree)}
    (h : child? (Text.bytes "src".toList) entries = some (dir below)) :
    (dir entries).resolve [] farRoot = .ok ["src".toList] := by
  have habs : Path.isAbsolute farRoot = false := by
    rw [farRoot, dots_succ]
    rfl
  refine resolve_eq_ok_iff.mpr ⟨?_, ?_, ?_, ?_⟩
  · intro hnul
    rcases List.mem_append.mp hnul with h | h
    · rcases mem_dots h with h | h <;> exact absurd h (by decide)
    · exact absurd h (by decide)
  · exact List.append_ne_nil_of_right_ne_nil _ (by decide)
  · rw [length_farRoot]
    decide
  · have hsegments : Path.segments (Text.bytes "src".toList) = [Text.bytes "src".toList] := by decide
    rw [habs, farRoot, segments_dots, hsegments]
    show resolveFrom (dir entries) maxLinks [] _ = _
    rw [resolveFrom_replicate rfl, resolveFrom_cons_of_child rfl (by decide) h (by simp), resolveFrom_nil]
    rfl

theorem length_join_farRoot {path : Bytes} (h : Path.isAbsolute path = false) :
    (Path.join farRoot path).length = 4092 + path.length := by
  have hlast : farRoot.getLast? = some (UInt8.ofNat 99) := by
    rw [farRoot, List.getLast?_append_of_ne_nil _ (by decide)]
    rfl
  have hstep : ¬ (farRoot = [] ∨ farRoot.getLast? = some slash) := by
    rw [hlast, not_or]
    exact ⟨fun hnil => by simp [hnil] at hlast, by decide⟩
  rw [Path.join, h, if_neg (by decide), if_neg hstep, List.length_append, List.length_cons, length_farRoot]
  omega

/-- A directory whose path is too long for the system is passed over: the file in it can be reached and
would be taken, but it is not listed. -/
theorem exec_listFiles_nested :
    nested.wellFormed = true ∧
      (∃ top, nested.find? [] farRoot = .ok top ∧
        Walk (fun _ => true) [] top ["pages".toList, "a.ts".toList] nestedText.encode) ∧
      Settings.standard.selection.Takes ["pages".toList, "a.ts".toList] ∧
      nested.exec (Lifter.listFiles (storage []) farRoot Settings.standard.selection).run =
        (.ok [], nested) := by
  have hroot : nested.resolve [] farRoot = .ok ["src".toList] := resolve_farRoot rfl
  have hfind := find?_eq_ok_iff.mpr ⟨_, hroot, rfl⟩
  refine ⟨by decide, ⟨_, hfind, ?_⟩, ?_, ?_⟩
  · exact .entry rfl (List.mem_singleton_self _)
      (.entry rfl (List.mem_singleton_self _) (.file _ _))
  · exact (Selection.selects_through_iff (by decide) (by decide)).mp (by decide)
  · have hopens : opens farRoot ["pages".toList] = false := by
      rw [opens, length_join_farRoot rfl]
      decide
    have hfiles : nested.filesBelow [] farRoot = some [] := by
      refine filesBelow_eq_some_iff.mpr ⟨_, _, hroot, rfl, ?_⟩
      show [] = List.map _ (List.filter _ [([Text.bytes "pages".toList, Text.bytes "a.ts".toList],
        nestedText.encode)])
      rw [List.filter_singleton, List.dropLast_cons_cons, List.dropLast_singleton, hopens]
      rfl
    rw [exec_listFiles, hfiles]
    simp only [Selection.candidates, List.filter_nil, List.mergeSort_nil, List.map_nil]

theorem exec_listFiles_twins :
    twins.exec (Lifter.listFiles (storage []) ".".toList Settings.standard.selection).run =
      (.ok [⟨Text.bytes "./".toList ++ 0xFF :: Text.bytes ".ts".toList, "\uFFFD.ts".toList⟩,
        ⟨Text.bytes "./".toList ++ 0xFE :: Text.bytes ".ts".toList, "\uFFFD.ts".toList⟩], twins) := by
  rw [exec_listFiles, filesBelow_twins]
  dsimp only
  rw [candidates_twins]

/-- The list is not exact for all trees. A directory may be too far down to be opened, and two files may
be shown alike, by a name that is neither's own. -/
theorem exec_listFiles_inexact :
    (nested.wellFormed = true ∧
      (∃ top, nested.find? [] farRoot = .ok top ∧
        Walk (fun _ => true) [] top ["pages".toList, "a.ts".toList] nestedText.encode) ∧
      Settings.standard.selection.Takes ["pages".toList, "a.ts".toList] ∧
      nested.exec (Lifter.listFiles (storage []) farRoot Settings.standard.selection).run =
        (.ok [], nested)) ∧
    twins.wellFormed = true ∧
      ∃ c d, twins.exec (Lifter.listFiles (storage []) ".".toList Settings.standard.selection).run =
          (.ok [c, d], twins) ∧
        c.relative = d.relative ∧ c.path ≠ Path.join (Text.bytes ".".toList) c.relative.bytes :=
  ⟨exec_listFiles_nested, by decide, _, _, exec_listFiles_twins, rfl, by decide⟩

end Tree

end Constify
