import Constify.Proofs.Substitution.Shape
import Constify.Settings.Basic

/-!
# Settings without a fault

* `isQuotable_of_isIdentifier`, `Table.exists_ofNames` : identifiers make a table;
* `Settings.identifier_valid`, `Settings.categories_valid` : what settings without a fault promise;
* `Settings.exists_listedTable` : their tags, or the usual ones, make a table.
-/

namespace Constify

/-! ## Tables of names -/

theorem isQuotable_of_isIdentifier {t : Text} (h : isIdentifier t = true) : isQuotable t = true := by
  have hne : t ≠ [] := by
    rintro rfl
    cases h
  rw [isQuotable, Bool.and_eq_true, Bool.not_eq_true', List.isEmpty_eq_false_iff, List.all_eq_true]
  refine ⟨hne, fun c hc => ?_⟩
  have hchar := isIdentChar_of_mem h hc
  have hother : ∀ d, isIdentChar d = false → c ≠ d := by
    rintro d hd rfl
    rw [hchar] at hd
    cases hd
  simp only [Bool.and_eq_true, bne_iff_ne]
  exact ⟨⟨⟨hother _ (by decide), hother _ (by decide)⟩, hother _ (by decide)⟩, hother _ (by decide)⟩

namespace Table

/-- The checks of a table ask no more of an entry whose literal is its key than that it is an
identifier. -/
theorem exists_ofNames {identifier : Text} {names : List Text} (hid : isIdentifier identifier = true)
    (hne : names ≠ []) (h : ∀ name ∈ names, isIdentifier name = true) :
    ∃ t, ofNames identifier names = .ok t := by
  have hnone : (names.map fun name => (⟨name, name⟩ : Entry)).findSome? Entry.fault? = none := by
    rw [List.findSome?_eq_none_iff]
    intro e he
    obtain ⟨name, hname, rfl⟩ := List.mem_map.mp he
    rw [Entry.fault?, if_pos (h name hname), if_pos (isQuotable_of_isIdentifier (h name hname))]
  rw [ofNames, ofEntries, dif_pos hid, dif_neg (by simpa using hne)]
  split
  · next fault hfault =>
    rw [hnone] at hfault
    cases hfault
  · exact ⟨_, rfl⟩

end Table

/-! ## The settings -/

namespace Settings

variable {s : Settings}

theorem identifier_valid (h : s.fault? = none) : isIdentifier s.constants.identifier = true := by
  unfold fault? at h
  split at h
  · cases h
  split at h
  · cases h
  split at h
  · cases h
  · next hid => simpa using hid

theorem categories_valid (h : s.fault? = none) {names : List Text}
    (hnames : s.constants.categories = some names) :
    names ≠ [] ∧ ∀ name ∈ names, isIdentifier name = true := by
  have hfault : categoriesFault? names = none := by
    unfold fault? at h
    split at h
    · cases h
    split at h
    · cases h
    split at h
    · cases h
    split at h
    · cases h
    · rwa [hnames] at h
  unfold categoriesFault? at hfault
  split at hfault
  · cases hfault
  · next hne =>
    rw [Option.map_eq_none_iff, List.find?_eq_none] at hfault
    exact ⟨hne, fun name hname => by simpa using hfault name hname⟩

/-- The tags of settings without a fault make a table. -/
theorem exists_listedTable (h : s.fault? = none) : ∃ t, s.listedTable = .ok t := by
  unfold listedTable
  cases hnames : s.constants.categories with
  | none => exact Table.exists_ofNames (identifier_valid h) (by decide) (by decide)
  | some names =>
    obtain ⟨hne, hid⟩ := categories_valid h hnames
    exact Table.exists_ofNames (identifier_valid h) hne hid

end Settings

end Constify
