import Constify.Proofs.Tree.Map

/-!
# The file operations and the tree

* `resolveFrom_cons` : one segment of a path, read in a directory;
* `resolve_mapFiles`, `isFile_mapFiles`, `filesBelow_mapFiles` : new bytes in the files change
  neither where paths lead nor which files there are;
* `readText_of_resolve` : reading a file, from where its path leads and what stands there;
* `readText_mapFiles`, `readText_mapFiles_of_eq` : what new bytes do to the text of a file.
-/

namespace Constify.Tree

open PathUnit (dot)

variable {f : List Bytes → ByteArray → ByteArray} {t : Tree} {here : List Bytes} {path : Bytes}
  {names : List Bytes}

/-! ## Where paths lead -/

theorem resolveFrom_cons {t : Tree} {links : Nat} {here rest : List Bytes} {s : Bytes}
    {entries : List (Bytes × Tree)} (h : t.at? here = some (dir entries)) :
    resolveFrom t links here (s :: rest) =
      if s = [] ∨ s = [dot] then resolveFrom t links here rest
      else if s = [dot, dot] then resolveFrom t links here.dropLast rest
      else if maxNameBytes < s.length then .error .nameTooLong
      else
        match child? s entries with
        | none => .error .notFound
        | some (link target) =>
          match links with
          | 0 => .error .tooManyLinks
          | links + 1 =>
            resolveFrom t links (if Path.isAbsolute target then [] else here)
              (Path.segments target ++ rest)
        | some _ => resolveFrom t links (here ++ [s]) rest := by
  rw [resolveFrom]
  split
  · next hdir =>
    cases h.symm.trans hdir
    rfl
  · next hdir => exact absurd h (hdir entries)

theorem resolveFrom_cons_of_here {t : Tree} {links : Nat} {here rest : List Bytes} {s : Bytes}
    {entries : List (Bytes × Tree)} (h : t.at? here = some (dir entries)) (hs : s = [] ∨ s = [dot]) :
    resolveFrom t links here (s :: rest) = resolveFrom t links here rest := by
  rw [resolveFrom_cons h, if_pos hs]

theorem resolveFrom_cons_of_not_dir {t : Tree} {links : Nat} {here rest : List Bytes} {s : Bytes}
    (h : ∀ entries, t.at? here ≠ some (dir entries)) :
    resolveFrom t links here (s :: rest) = .error .notDirectory := by
  rw [resolveFrom]
  split
  · next entries hdir => exact absurd hdir (h entries)
  · rfl

@[simp] theorem resolveFrom_nil (t : Tree) (links : Nat) (here : List Bytes) :
    resolveFrom t links here [] = .ok here := by
  rw [resolveFrom]

/-- The system takes the path and follows it. -/
theorem resolve_of_taken (h : 0 ∉ path ∧ path ≠ [] ∧ ¬ maxPathBytes ≤ path.length) :
    t.resolve here path =
      resolveFrom t maxLinks (if Path.isAbsolute path then [] else here) (Path.segments path) := by
  obtain ⟨hnul, hnil, hlong⟩ := h
  rw [resolve, if_neg hnul, if_neg hnil, if_neg hlong]

theorem resolve_eq_ok_iff :
    t.resolve here path = .ok names ↔
      0 ∉ path ∧ path ≠ [] ∧ ¬ maxPathBytes ≤ path.length ∧
        resolveFrom t maxLinks (if Path.isAbsolute path then [] else here) (Path.segments path) =
          .ok names := by
  unfold resolve
  split
  · next h => simp [h]
  split
  · next h => simp [h]
  split
  · next h => simp [h]
  · next hnul hnil hlong => simp only [hnul, hnil, hlong, not_false_eq_true, ne_eq, true_and]

theorem resolveFrom_mapFiles (f : List Bytes → ByteArray → ByteArray) (t : Tree) (links : Nat)
    (here segments : List Bytes) :
    resolveFrom (mapFiles f t) links here segments = resolveFrom t links here segments := by
  fun_induction resolveFrom t links here segments with
  | case1 links here => exact resolveFrom_nil _ _ _
  | case2 links here s rest entries hdir hs ih =>
    rw [resolveFrom_cons (at?_mapFiles_eq_dir hdir), if_pos hs, ih]
  | case3 links here rest entries hdir hs ih =>
    rw [resolveFrom_cons (at?_mapFiles_eq_dir hdir), if_neg hs, if_pos rfl, ih]
  | case4 links here s rest entries hdir hs hup hlong =>
    rw [resolveFrom_cons (at?_mapFiles_eq_dir hdir), if_neg hs, if_neg hup, if_pos hlong]
  | case5 links here s rest entries hdir hs hup hlong hchild =>
    rw [resolveFrom_cons (at?_mapFiles_eq_dir hdir), if_neg hs, if_neg hup, if_neg hlong,
      child?_mapEntries, hchild]
    rfl
  | case6 here s rest entries hdir hs hup hlong target hchild =>
    rw [resolveFrom_cons (at?_mapFiles_eq_dir hdir), if_neg hs, if_neg hup, if_neg hlong,
      child?_mapEntries, hchild]
    rfl
  | case7 here s rest entries hdir hs hup hlong target hchild links ih =>
    rw [resolveFrom_cons (at?_mapFiles_eq_dir hdir), if_neg hs, if_neg hup, if_neg hlong,
      child?_mapEntries, hchild]
    exact ih
  | case8 links here s rest entries hdir hs hup hlong found hlink hchild ih =>
    rw [resolveFrom_cons (at?_mapFiles_eq_dir hdir), if_neg hs, if_neg hup, if_neg hlong,
      child?_mapEntries, hchild]
    cases found with
    | file bytes => exact ih
    | link target => exact absurd rfl (hlink target)
    | dir entries => exact ih
  | case9 links here s rest hdir =>
    refine resolveFrom_cons_of_not_dir fun entries h => ?_
    obtain ⟨entries', h'⟩ := exists_at?_eq_dir_of_mapFiles h
    exact hdir entries' h'

@[simp] theorem resolve_mapFiles (f : List Bytes → ByteArray → ByteArray) (t : Tree)
    (here : List Bytes) (path : Bytes) : (mapFiles f t).resolve here path = t.resolve here path := by
  unfold resolve
  rw [resolveFrom_mapFiles]

/-! ## What paths lead to -/

theorem find?_of_resolve_error {fault : ReadFault} (h : t.resolve here path = .error fault) :
    t.find? here path = .error fault := by
  unfold find?
  rw [h]
  rfl

theorem find?_of_resolve (h : t.resolve here path = .ok names) :
    t.find? here path =
      match t.at? names with
      | some found => .ok found
      | none => .error .notFound := by
  unfold find?
  rw [h]
  rfl

theorem find?_eq_ok_iff {found : Tree} :
    t.find? here path = .ok found ↔
      ∃ names, t.resolve here path = .ok names ∧ t.at? names = some found := by
  cases h : t.resolve here path with
  | error fault => simp [find?_of_resolve_error h]
  | ok names =>
    rw [find?_of_resolve h]
    cases hat : t.at? names <;> simp [hat]

theorem find?_mapFiles_of_resolve (h : t.resolve here path = .ok names) :
    (mapFiles f t).find? here path =
      (t.find? here path).map (mapFiles fun rest => f (names ++ rest)) := by
  have h' : (mapFiles f t).resolve here path = .ok names := by rw [resolve_mapFiles, h]
  rw [find?_of_resolve h, find?_of_resolve h', at?_mapFiles]
  cases t.at? names <;> rfl

theorem find?_mapFiles_of_resolve_error {fault : ReadFault}
    (h : t.resolve here path = .error fault) : (mapFiles f t).find? here path = .error fault :=
  find?_of_resolve_error (by rw [resolve_mapFiles, h])

@[simp] theorem isFile_mapFiles (f : List Bytes → ByteArray → ByteArray) (t : Tree)
    (here : List Bytes) (path : Bytes) : (mapFiles f t).isFile here path = t.isFile here path := by
  unfold isFile
  cases h : t.resolve here path with
  | error fault => rw [find?_mapFiles_of_resolve_error h, find?_of_resolve_error h]
  | ok names =>
    rw [find?_mapFiles_of_resolve h]
    cases t.find? here path with
    | error fault => rfl
    | ok found => cases found <;> rfl

@[simp] theorem filesBelow_mapFiles (f : List Bytes → ByteArray → ByteArray) (t : Tree)
    (here : List Bytes) (path : Bytes) :
    (mapFiles f t).filesBelow here path = t.filesBelow here path := by
  unfold filesBelow
  cases h : t.resolve here path with
  | error fault => rw [find?_mapFiles_of_resolve_error h, find?_of_resolve_error h]
  | ok names =>
    rw [find?_mapFiles_of_resolve h]
    cases t.find? here path with
    | error fault => rfl
    | ok found =>
      cases found with
      | file bytes => rfl
      | link target => rfl
      | dir entries =>
        simp only [Except.map, mapFiles, filesOfEntries_mapEntries, List.filter_map, List.map_map]
        rfl

/-! ## Reading -/

theorem readText_of_resolve_error {fault : ReadFault} (h : t.resolve here path = .error fault) :
    t.readText here path = .error fault := by
  unfold readText
  rw [find?_of_resolve_error h]
  rfl

/-- The text that bytes hold, or the fault of bytes that are not UTF-8. -/
def textOfBytes (bytes : ByteArray) : Except ReadFault Text :=
  match Text.decode? bytes with
  | some text => .ok text
  | none => .error .notUtf8

theorem readText_of_resolve (h : t.resolve here path = .ok names) :
    t.readText here path =
      match t.at? names with
      | some (file bytes) => textOfBytes bytes
      | some _ => .error .isDirectory
      | none => .error .notFound := by
  unfold readText
  rw [find?_of_resolve h]
  cases t.at? names with
  | none => rfl
  | some found =>
    cases found with
    | link target => rfl
    | dir entries => rfl
    | file bytes =>
      show (match Text.decode? bytes with | some text => _ | none => _) = textOfBytes bytes
      unfold textOfBytes
      cases Text.decode? bytes <;> rfl

theorem readText_of_file {bytes : ByteArray} (h : t.resolve here path = .ok names)
    (hfile : t.at? names = some (file bytes)) : t.readText here path = textOfBytes bytes := by
  rw [readText_of_resolve h, hfile]

theorem textOfBytes_eq_ok_iff {bytes : ByteArray} {text : Text} :
    textOfBytes bytes = .ok text ↔ Text.decode? bytes = some text := by
  unfold textOfBytes
  cases Text.decode? bytes <;> simp

theorem readText_eq_ok_iff {text : Text} :
    t.readText here path = .ok text ↔
      ∃ names bytes, t.resolve here path = .ok names ∧ t.at? names = some (file bytes) ∧
        Text.decode? bytes = some text := by
  constructor
  · intro h
    cases hr : t.resolve here path with
    | error fault =>
      rw [readText_of_resolve_error hr] at h
      cases h
    | ok names =>
      rw [readText_of_resolve hr] at h
      split at h
      · next bytes hfile =>
        exact ⟨names, bytes, rfl, hfile, textOfBytes_eq_ok_iff.mp h⟩
      · cases h
      · cases h
  · rintro ⟨names, bytes, hr, hfile, hd⟩
    rw [readText_of_file hr hfile, textOfBytes_eq_ok_iff]
    exact hd

/-- What the new bytes of a file do to its text. -/
theorem readText_mapFiles {g : Text → Text}
    (h : ∀ names bytes, t.resolve here path = .ok names → t.at? names = some (file bytes) →
      textOfBytes (f names bytes) = (textOfBytes bytes).map g) :
    (mapFiles f t).readText here path = (t.readText here path).map g := by
  cases hr : t.resolve here path with
  | error fault =>
    rw [readText_of_resolve_error hr, readText_of_resolve_error (by rw [resolve_mapFiles, hr])]
    rfl
  | ok names =>
    have hr' : (mapFiles f t).resolve here path = .ok names := by rw [resolve_mapFiles, hr]
    rw [readText_of_resolve hr, readText_of_resolve hr', at?_mapFiles]
    cases hat : t.at? names with
    | none => rfl
    | some found =>
      cases found with
      | link target => rfl
      | dir entries => rfl
      | file bytes =>
        show textOfBytes (f (names ++ []) bytes) = (textOfBytes bytes).map g
        rw [List.append_nil]
        exact h names bytes hr hat

/-- A file is read as before if its own bytes are as before. -/
theorem readText_mapFiles_of_eq
    (h : ∀ names bytes, t.resolve here path = .ok names → t.at? names = some (file bytes) →
      f names bytes = bytes) : (mapFiles f t).readText here path = t.readText here path := by
  have hmap : ∀ result : Except ReadFault Text, result.map id = result := by
    intro result
    cases result <;> rfl
  rw [readText_mapFiles (g := id) fun names bytes hr hfile => by rw [h names bytes hr hfile, hmap], hmap]

/-! ## Writing -/

theorem writeText_of_file {bytes : ByteArray} {text : Text} (h : t.resolve here path = .ok names)
    (hfile : t.at? names = some (file bytes)) :
    t.writeText here path text = .ok (t.alter (fun _ => some (file text.encode)) names) := by
  unfold writeText
  simp only [h, bind, Except.bind, hfile]
  rfl

end Constify.Tree
