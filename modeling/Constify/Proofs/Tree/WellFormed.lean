import Constify.Proofs.Tree.Access

/-!
# Trees that a file system can hold

* `Path.isName` : the names that a directory entry can have;
* `Tree.wellFormed` : every directory lists its entries under different names;
* `mem_files_iff` : the files of such a tree are what stands at their names;
* `nodup_files` : each file is listed once;
* `alter_eq_mapFiles` : putting new bytes in one file.
-/

namespace Constify

open PathUnit (slash dot)

/-- An entry of a directory can have this name. -/
def Path.isName (name : Bytes) : Bool :=
  name != [] && name != [dot] && name != [dot, dot] && !name.contains slash &&
    !name.contains 0 && name.length ≤ Tree.maxNameBytes

namespace Tree

mutual

/-- Every directory of the tree lists its entries under different names. -/
def wellFormed : Tree → Bool
  | file _ => true
  | link _ => true
  | dir entries => decide (entries.map Prod.fst).Nodup && wellFormedEntries entries

/-- The entries have names that entries can have, and hold well-formed trees. -/
def wellFormedEntries : List (Bytes × Tree) → Bool
  | [] => true
  | (name, t) :: entries => Path.isName name && wellFormed t && wellFormedEntries entries

end

variable {f : List Bytes → ByteArray → ByteArray} {t : Tree} {entries : List (Bytes × Tree)}

theorem wellFormed_dir_iff :
    (dir entries).wellFormed = true ↔
      (entries.map Prod.fst).Nodup ∧ wellFormedEntries entries = true := by
  rw [wellFormed, Bool.and_eq_true, decide_eq_true_eq]

theorem wellFormedEntries_cons_iff {name : Bytes} :
    wellFormedEntries ((name, t) :: entries) = true ↔
      Path.isName name = true ∧ t.wellFormed = true ∧ wellFormedEntries entries = true := by
  rw [wellFormedEntries, Bool.and_eq_true, Bool.and_eq_true, and_assoc]

theorem wellFormedEntries_iff :
    wellFormedEntries entries = true ↔
      ∀ e ∈ entries, Path.isName e.1 = true ∧ e.2.wellFormed = true := by
  induction entries with
  | nil => simp [wellFormedEntries]
  | cons e entries ih =>
    obtain ⟨name, t⟩ := e
    rw [wellFormedEntries_cons_iff, ih, List.forall_mem_cons, and_assoc]

theorem map_fst_mapEntries (f : List Bytes → ByteArray → ByteArray) (entries : List (Bytes × Tree)) :
    (mapEntries f entries).map Prod.fst = entries.map Prod.fst := by
  induction entries with
  | nil => rfl
  | cons e entries ih =>
    obtain ⟨name, t⟩ := e
    rw [mapEntries, List.map_cons, List.map_cons, ih]

mutual

theorem wellFormed_mapFiles (f : List Bytes → ByteArray → ByteArray) :
    ∀ t : Tree, (mapFiles f t).wellFormed = t.wellFormed
  | file _ => rfl
  | link _ => rfl
  | dir entries => by
    rw [mapFiles, wellFormed, wellFormed, map_fst_mapEntries, wellFormedEntries_mapEntries f entries]

theorem wellFormedEntries_mapEntries (f : List Bytes → ByteArray → ByteArray) :
    ∀ entries : List (Bytes × Tree),
      wellFormedEntries (mapEntries f entries) = wellFormedEntries entries
  | [] => rfl
  | (name, t) :: entries => by
    rw [mapEntries, wellFormedEntries, wellFormedEntries, wellFormed_mapFiles,
      wellFormedEntries_mapEntries f entries]

end

/-! ## Entries -/

theorem mem_of_child? {name : Bytes} (h : child? name entries = some t) : (name, t) ∈ entries := by
  induction entries with
  | nil => cases h
  | cons e entries ih =>
    rw [child?_cons] at h
    split at h
    · next hname =>
      obtain ⟨other, u⟩ := e
      cases h
      rw [← hname]
      exact List.mem_cons_self ..
    · exact List.mem_cons_of_mem _ (ih h)

theorem child?_of_mem {name : Bytes} (hnodup : (entries.map Prod.fst).Nodup)
    (h : (name, t) ∈ entries) : child? name entries = some t := by
  induction entries with
  | nil => cases h
  | cons e entries ih =>
    rw [List.map_cons, List.nodup_cons] at hnodup
    rw [child?_cons]
    rcases List.mem_cons.mp h with rfl | h
    · simp
    · have hne : e.1 ≠ name := by
        rintro rfl
        exact hnodup.1 (List.mem_map.mpr ⟨_, h, rfl⟩)
      rw [if_neg hne, ih hnodup.2 h]

theorem wellFormed_of_at? {names : List Bytes} {found : Tree} (ht : t.wellFormed = true)
    (h : t.at? names = some found) : found.wellFormed = true := by
  induction names generalizing t with
  | nil =>
    cases h
    exact ht
  | cons name names ih =>
    cases t with
    | file bytes => cases h
    | link target => cases h
    | dir entries =>
      rw [at?] at h
      obtain ⟨u, hu, h⟩ := Option.bind_eq_some_iff.mp h
      rw [wellFormed_dir_iff, wellFormedEntries_iff] at ht
      exact ih (ht.2 _ (mem_of_child? hu)).2 h

theorem at?_append (names rest : List Bytes) (t : Tree) :
    t.at? (names ++ rest) = (t.at? names).bind (at? rest) := by
  induction names generalizing t with
  | nil => rfl
  | cons name names ih =>
    cases t with
    | file bytes => rfl
    | link target => rfl
    | dir entries =>
      rw [List.cons_append, at?, at?]
      cases child? name entries with
      | none => rfl
      | some u => exact ih u

/-! ## The files of a tree -/

theorem mem_filesOfEntries_iff {x : List Bytes × ByteArray} :
    x ∈ filesOfEntries entries ↔
      ∃ name u, (name, u) ∈ entries ∧ ∃ y ∈ files u, x = (name :: y.1, y.2) := by
  induction entries with
  | nil => simp [filesOfEntries]
  | cons e entries ih =>
    obtain ⟨name, u⟩ := e
    rw [filesOfEntries, List.mem_append, ih, List.mem_map]
    constructor
    · rintro (⟨y, hy, rfl⟩ | ⟨other, v, hv, y, hy, rfl⟩)
      · exact ⟨name, u, List.mem_cons_self .., y, hy, rfl⟩
      · exact ⟨other, v, List.mem_cons_of_mem _ hv, y, hy, rfl⟩
    · rintro ⟨other, v, hv, y, hy, rfl⟩
      rcases List.mem_cons.mp hv with h | hv
      · cases h
        exact Or.inl ⟨y, hy, rfl⟩
      · exact Or.inr ⟨other, v, hv, y, hy, rfl⟩

/-- The files of a well-formed tree are what stands at their names. -/
theorem mem_files_iff {names : List Bytes} {bytes : ByteArray} (ht : t.wellFormed = true) :
    (names, bytes) ∈ files t ↔ t.at? names = some (file bytes) := by
  induction names generalizing t with
  | nil =>
    cases t with
    | file b => simp [files, at?, eq_comm]
    | link target => simp [files, at?]
    | dir entries =>
      rw [files, mem_filesOfEntries_iff]
      simp [at?]
  | cons name names ih =>
    cases t with
    | file b => simp [files, at?]
    | link target => simp [files, at?]
    | dir entries =>
      have hwf := wellFormed_dir_iff.mp ht
      rw [files, mem_filesOfEntries_iff, at?]
      constructor
      · rintro ⟨other, u, hu, ⟨y, b⟩, hy, h⟩
        cases h
        rw [child?_of_mem hwf.1 hu]
        exact (ih (wellFormedEntries_iff.mp hwf.2 _ hu).2).mp hy
      · intro h
        obtain ⟨u, hu, h⟩ := Option.bind_eq_some_iff.mp h
        have hmem := mem_of_child? hu
        exact ⟨name, u, hmem, (names, bytes),
          (ih (wellFormedEntries_iff.mp hwf.2 _ hmem).2).mpr h, rfl⟩

theorem mem_filesOfEntries_iff_at? {names : List Bytes} {bytes : ByteArray}
    (ht : (dir entries).wellFormed = true) :
    (names, bytes) ∈ filesOfEntries entries ↔ (dir entries).at? names = some (file bytes) :=
  mem_files_iff ht

mutual

theorem isName_of_mem_files : ∀ {t : Tree}, t.wellFormed = true → ∀ x ∈ files t,
    ∀ name ∈ x.1, Path.isName name = true
  | file _, _, x, hx => by
    rw [files, List.mem_singleton] at hx
    simp [hx]
  | link _, _, x, hx => by simp [files] at hx
  | dir entries, ht, x, hx => isName_of_mem_filesOfEntries (wellFormed_dir_iff.mp ht).2 x hx

theorem isName_of_mem_filesOfEntries : ∀ {entries : List (Bytes × Tree)},
    wellFormedEntries entries = true → ∀ x ∈ filesOfEntries entries,
      ∀ name ∈ x.1, Path.isName name = true
  | [], _, x, hx => by simp [filesOfEntries] at hx
  | (other, t) :: entries, h, x, hx => by
    have hwf := wellFormedEntries_cons_iff.mp h
    intro name hname
    rw [filesOfEntries, List.mem_append, List.mem_map] at hx
    rcases hx with ⟨y, hy, rfl⟩ | hx
    · rcases List.mem_cons.mp hname with rfl | hname
      · exact hwf.1
      · exact isName_of_mem_files hwf.2.1 y hy name hname
    · exact isName_of_mem_filesOfEntries hwf.2.2 x hx name hname

end

mutual

theorem nodup_files : ∀ {t : Tree}, t.wellFormed = true → ((files t).map Prod.fst).Nodup
  | file _, _ => by simp [files]
  | link _, _ => by simp [files]
  | dir _, ht =>
    nodup_filesOfEntries (wellFormed_dir_iff.mp ht).1 (wellFormed_dir_iff.mp ht).2

theorem nodup_filesOfEntries : ∀ {entries : List (Bytes × Tree)}, (entries.map Prod.fst).Nodup →
    wellFormedEntries entries = true → ((filesOfEntries entries).map Prod.fst).Nodup
  | [], _, _ => by simp [filesOfEntries]
  | (name, t) :: entries, hnodup, h => by
    have hwf := wellFormedEntries_cons_iff.mp h
    rw [List.map_cons, List.nodup_cons] at hnodup
    rw [filesOfEntries, List.map_append, List.map_map, List.nodup_append']
    refine ⟨?_, nodup_filesOfEntries hnodup.2 hwf.2.2, ?_⟩
    · have := (nodup_files hwf.2.1).map (List.cons_injective (a := name))
      rwa [List.map_map] at this
    · intro names hl hr
      obtain ⟨y, -, rfl⟩ := List.mem_map.mp hl
      obtain ⟨x, hx, hfst⟩ := List.mem_map.mp hr
      obtain ⟨other, u, hu, z, -, rfl⟩ := mem_filesOfEntries_iff.mp hx
      have : other = name := (List.cons.inj hfst).1
      exact hnodup.1 (List.mem_map.mpr ⟨_, hu, this⟩)

end

/-! ## New bytes in one file -/

/-- The change that puts new bytes in the file at the names. -/
def replaceAt (names : List Bytes) (new : ByteArray) : List Bytes → ByteArray → ByteArray :=
  fun other bytes => if other = names then new else bytes

theorem replaceAt_cons (name : Bytes) (names : List Bytes) (new : ByteArray) :
    (fun rest => replaceAt (name :: names) new (name :: rest)) = replaceAt names new := by
  funext rest bytes
  simp [replaceAt]

theorem mapEntries_eq_self (h : ∀ x ∈ filesOfEntries entries, f x.1 x.2 = x.2) :
    mapEntries f entries = entries :=
  (mapEntries_congr h).trans (mapEntries_id entries)

theorem alterEntry_eq_mapEntries {change : Option Tree → Option Tree} {name : Bytes} {u : Tree}
    (hf : ∀ other rest bytes, other ≠ name → f (other :: rest) bytes = bytes)
    (hnodup : (entries.map Prod.fst).Nodup) (hchild : child? name entries = some u)
    (hchange : change (some u) = some (mapFiles (fun rest => f (name :: rest)) u)) :
    alterEntry change name entries = mapEntries f entries := by
  induction entries with
  | nil => cases hchild
  | cons e entries ih =>
    obtain ⟨other, v⟩ := e
    rw [List.map_cons, List.nodup_cons] at hnodup
    rw [child?_cons] at hchild
    rw [alterEntry, mapEntries]
    by_cases h : other = name
    · subst h
      rw [if_pos rfl] at hchild ⊢
      cases hchild
      have hrest : mapEntries f entries = entries := by
        refine mapEntries_eq_self fun x hx => ?_
        obtain ⟨name, w, hw, y, -, rfl⟩ := mem_filesOfEntries_iff.mp hx
        apply hf
        rintro rfl
        exact hnodup.1 (List.mem_map.mpr ⟨_, hw, rfl⟩)
      rw [hchange, hrest]
      rfl
    · rw [if_neg h] at hchild ⊢
      have hv : (fun rest => f (other :: rest)) = fun _ bytes => bytes := by
        funext rest bytes
        exact hf other rest bytes h
      rw [ih hnodup.2 hchild, hv, mapFiles_id]

/-- Putting new bytes in a file changes that file and nothing else. -/
theorem alter_eq_mapFiles {names : List Bytes} {bytes : ByteArray} (ht : t.wellFormed = true)
    (hne : names ≠ []) (h : t.at? names = some (file bytes)) (new : ByteArray) :
    t.alter (fun _ => some (file new)) names = mapFiles (replaceAt names new) t := by
  induction names generalizing t with
  | nil => exact absurd rfl hne
  | cons name names ih =>
    cases t with
    | file b => cases h
    | link target => cases h
    | dir entries =>
      have hwf := wellFormed_dir_iff.mp ht
      rw [at?] at h
      obtain ⟨u, hu, h⟩ := Option.bind_eq_some_iff.mp h
      have hother : ∀ other rest bytes, other ≠ name →
          replaceAt (name :: names) new (other :: rest) bytes = bytes := by
        intro other rest bytes hne
        simp [replaceAt, hne]
      cases names with
      | nil =>
        cases h
        rw [alter, mapFiles]
        congr 1
        refine alterEntry_eq_mapEntries hother hwf.1 hu ?_
        rw [replaceAt_cons]
        rfl
      | cons name' names =>
        rw [alter, mapFiles]
        · congr 1
          refine alterEntry_eq_mapEntries hother hwf.1 hu ?_
          have hwfu := (wellFormedEntries_iff.mp hwf.2 _ (mem_of_child? hu)).2
          rw [replaceAt_cons, Option.getD_some, ih hwfu (by simp) h]
        · simp

end Tree

end Constify
