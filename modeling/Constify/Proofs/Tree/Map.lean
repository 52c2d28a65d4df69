import Mathlib.Tactic
import Constify.Tree.Basic

/-!
# New bytes in the files of a tree

* `Tree.mapFiles f` : the tree with new bytes in its files, names, directories and links unchanged;
* `at?_mapFiles`, `files_mapFiles` : what stands in the new tree;
* `mapFiles_congr`, `mapFiles_mapFiles` : only the bytes that the files hold matter, and two changes
  are one.
-/

namespace Constify.Tree

mutual

/-- The tree with new bytes in its files. A file is told by the names that lead to it. -/
def mapFiles (f : List Bytes → ByteArray → ByteArray) : Tree → Tree
  | file bytes => file (f [] bytes)
  | link target => link target
  | dir entries => dir (mapEntries f entries)

def mapEntries (f : List Bytes → ByteArray → ByteArray) : List (Bytes × Tree) → List (Bytes × Tree)
  | [] => []
  | (name, t) :: entries =>
    (name, mapFiles (fun names => f (name :: names)) t) :: mapEntries f entries

end

variable {f g : List Bytes → ByteArray → ByteArray}

theorem child?_cons (name : Bytes) (e : Bytes × Tree) (entries : List (Bytes × Tree)) :
    child? name (e :: entries) = if e.1 = name then some e.2 else child? name entries := by
  unfold child?
  rw [List.find?_cons]
  by_cases h : e.1 = name
  · simp [h]
  · rw [if_neg h, beq_eq_false_iff_ne.mpr h]

/-! ## What stands in the new tree -/

theorem child?_mapEntries (f : List Bytes → ByteArray → ByteArray) (name : Bytes)
    (entries : List (Bytes × Tree)) :
    child? name (mapEntries f entries) =
      (child? name entries).map (mapFiles fun names => f (name :: names)) := by
  induction entries with
  | nil => rfl
  | cons e entries ih =>
    obtain ⟨other, t⟩ := e
    rw [mapEntries, child?_cons, child?_cons, ih]
    by_cases h : other = name
    · simp [h]
    · simp [h]

theorem at?_mapFiles (f : List Bytes → ByteArray → ByteArray) (names : List Bytes) (t : Tree) :
    (mapFiles f t).at? names = (t.at? names).map (mapFiles fun rest => f (names ++ rest)) := by
  induction names generalizing t f with
  | nil => rfl
  | cons name names ih =>
    cases t with
    | file bytes => rfl
    | link target => rfl
    | dir entries =>
      rw [mapFiles, at?, at?, child?_mapEntries]
      cases child? name entries with
      | none => rfl
      | some t => exact ih (fun rest => f (name :: rest)) t

theorem at?_mapFiles_eq_file {names : List Bytes} {t : Tree} {bytes : ByteArray}
    (h : t.at? names = some (file bytes)) :
    (mapFiles f t).at? names = some (file (f names bytes)) := by
  rw [at?_mapFiles, h, Option.map_some, mapFiles, List.append_nil]

theorem at?_mapFiles_eq_dir {names : List Bytes} {t : Tree} {entries : List (Bytes × Tree)}
    (h : t.at? names = some (dir entries)) : (mapFiles f t).at? names =
      some (dir (mapEntries (fun rest => f (names ++ rest)) entries)) := by
  rw [at?_mapFiles, h, Option.map_some, mapFiles]

theorem exists_at?_eq_dir_of_mapFiles {names : List Bytes} {t : Tree} {entries : List (Bytes × Tree)}
    (h : (mapFiles f t).at? names = some (dir entries)) :
    ∃ entries', t.at? names = some (dir entries') := by
  rw [at?_mapFiles] at h
  obtain ⟨found, hfound, hmap⟩ := Option.map_eq_some_iff.mp h
  cases found with
  | file bytes => cases hmap
  | link target => cases hmap
  | dir entries' => exact ⟨entries', hfound⟩

mutual

theorem files_mapFiles (f : List Bytes → ByteArray → ByteArray) :
    ∀ t : Tree, files (mapFiles f t) = (files t).map fun x => (x.1, f x.1 x.2)
  | file _ => rfl
  | link _ => rfl
  | dir entries => filesOfEntries_mapEntries f entries

theorem filesOfEntries_mapEntries (f : List Bytes → ByteArray → ByteArray) :
    ∀ entries : List (Bytes × Tree),
      filesOfEntries (mapEntries f entries) = (filesOfEntries entries).map fun x => (x.1, f x.1 x.2)
  | [] => rfl
  | (name, t) :: entries => by
    rw [mapEntries, filesOfEntries, filesOfEntries, files_mapFiles, filesOfEntries_mapEntries f entries,
      List.map_append, List.map_map, List.map_map]
    rfl

end

/-! ## Only the bytes of the files matter -/

mutual

theorem mapFiles_congr {f g : List Bytes → ByteArray → ByteArray} :
    ∀ {t : Tree}, (∀ x ∈ files t, f x.1 x.2 = g x.1 x.2) → mapFiles f t = mapFiles g t
  | file bytes, h => by rw [mapFiles, mapFiles, h ([], bytes) (by simp [files])]
  | link target, _ => rfl
  | dir entries, h => by rw [mapFiles, mapFiles, mapEntries_congr h]

theorem mapEntries_congr {f g : List Bytes → ByteArray → ByteArray} :
    ∀ {entries : List (Bytes × Tree)}, (∀ x ∈ filesOfEntries entries, f x.1 x.2 = g x.1 x.2) →
      mapEntries f entries = mapEntries g entries
  | [], _ => rfl
  | (name, t) :: entries, h => by
    rw [filesOfEntries] at h
    have hentry : mapFiles (fun names => f (name :: names)) t =
        mapFiles (fun names => g (name :: names)) t :=
      mapFiles_congr fun x hx => h (name :: x.1, x.2)
        (List.mem_append_left _ (List.mem_map.mpr ⟨x, hx, rfl⟩))
    rw [mapEntries, mapEntries, hentry,
      mapEntries_congr fun x hx => h x (List.mem_append_right _ hx)]

end

mutual

theorem mapFiles_id : ∀ t : Tree, mapFiles (fun _ bytes => bytes) t = t
  | file _ => rfl
  | link _ => rfl
  | dir entries => by rw [mapFiles, mapEntries_id entries]

theorem mapEntries_id : ∀ entries : List (Bytes × Tree), mapEntries (fun _ bytes => bytes) entries = entries
  | [] => rfl
  | (_, t) :: entries => by rw [mapEntries, mapFiles_id t, mapEntries_id entries]

end

/-- A change that leaves the bytes of every file as they are changes nothing. -/
theorem mapFiles_eq_self {t : Tree} (h : ∀ x ∈ files t, f x.1 x.2 = x.2) : mapFiles f t = t :=
  (mapFiles_congr h).trans (mapFiles_id t)

mutual

theorem mapFiles_mapFiles (f g : List Bytes → ByteArray → ByteArray) :
    ∀ t : Tree, mapFiles g (mapFiles f t) = mapFiles (fun names bytes => g names (f names bytes)) t
  | file _ => rfl
  | link _ => rfl
  | dir entries => by rw [mapFiles, mapFiles, mapFiles, mapEntries_mapEntries f g entries]

theorem mapEntries_mapEntries (f g : List Bytes → ByteArray → ByteArray) :
    ∀ entries : List (Bytes × Tree), mapEntries g (mapEntries f entries) =
      mapEntries (fun names bytes => g names (f names bytes)) entries
  | [] => rfl
  | (name, t) :: entries => by
    rw [mapEntries, mapEntries, mapEntries, mapFiles_mapFiles, mapEntries_mapEntries f g entries]

end

end Constify.Tree
