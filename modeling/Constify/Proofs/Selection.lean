import Constify.Proofs.Text.Shown
import Constify.Proofs.Tree.Below
import Constify.Selection

/-!
# The files that a selection takes

* `Selection.hasExtension_through_iff` : the extension of a file below a directory;
* `Selection.Takes`, `Selection.selects_through_iff` : the files that a selection takes.
-/

namespace Constify

namespace Selection

variable {s : Selection} {names : List Bytes}

/-- The selection takes the file at these names: its own name has one of the extensions, and its path as
it is shown has none of the excluded texts in it. -/
structure Takes (s : Selection) (names : List Bytes) : Prop where
  extension : ∃ name, ∃ ext : Text, names.getLast? = some name ∧ Path.HasExtension name ext.bytes ∧
    ext ∈ s.extensions
  included : ∀ text ∈ s.exclude, ¬ text <:+: Bytes.shown (Path.through names)

theorem hasExtension_through_iff (hne : names ≠ []) (h : ∀ name ∈ names, Path.IsEntry name) :
    s.hasExtension (Path.through names) = true ↔
      ∃ ext : Text, Path.HasExtension (names.getLast hne) ext.bytes ∧ ext ∈ s.extensions := by
  unfold hasExtension
  rw [Path.extension?_through hne h, Option.any_eq_true]
  simp only [Option.bind_eq_some_iff, Bytes.text?_eq_some_iff, Path.nameExtension?_eq_some_iff,
    List.contains_iff_mem, exists_eq_right]

theorem isExcluded_eq_false_iff {relative : Text} :
    s.isExcluded relative = false ↔ ∀ text ∈ s.exclude, ¬ text <:+: relative := by
  unfold isExcluded
  simp only [List.any_eq_false, Text.occursIn_iff]

theorem selects_through_iff (hne : names ≠ []) (h : ∀ name ∈ names, Path.isName name = true) :
    s.selects (Path.through names) = true ↔ s.Takes names := by
  rw [selects, Bool.and_eq_true,
    hasExtension_through_iff hne fun name hname => Path.isEntry_of_isName (h name hname),
    Bool.not_eq_true', isExcluded_eq_false_iff]
  constructor
  · rintro ⟨⟨ext, hext, hmem⟩, hincluded⟩
    exact ⟨⟨names.getLast hne, ext, List.getLast?_eq_some_getLast hne, hext, hmem⟩, hincluded⟩
  · rintro ⟨⟨name, ext, hlast, hext, hmem⟩, hincluded⟩
    rw [List.getLast?_eq_some_getLast hne] at hlast
    obtain rfl := Option.some.inj hlast
    exact ⟨⟨ext, hext, hmem⟩, hincluded⟩

end Selection

end Constify
