import Constify.Proofs.Identifier.Token
import Constify.Proofs.Import.Insertion

/-!
# Presence of an import

* `Importer.Imports i t` : the text holds the canonical spelling, or a declaration of it binds the name;
* `Importer.needsImport_iff` : an import is added to a text that mentions the name without importing it;
* `Importer.ensure_ne_iff` : that always changes the text;
* `Importer.imports_ensure`, `Importer.standsAlone_ensure` : a text that mentions the name still does so
  afterwards, and imports it;
* `Importer.needsImport_ensure`, `Importer.ensure_ensure` : so nothing is added again, from whatever path.
-/

namespace Constify.Importer

/-- An importer for a file beside the module of the constant object. -/
def tagsImporter : Importer where
  identifier := "Tags".toList
  module := "tags".toList
  layout := Layout.standard

variable {i : Importer} {path content : Text}

/-- The text holds the canonical spelling of the import, or one of its declarations binds the name. -/
def Imports (i : Importer) (t : Text) : Prop :=
  i.canonical <:+: t ∨ ∃ d ∈ declarations t, i.identifier ∈ d.bindings

theorem isImported_iff : i.isImported content = true ↔ i.Imports content := by
  rw [isImported, Bool.or_eq_true, Text.occursIn_iff, List.any_eq_true, Imports]
  simp only [List.contains_iff_mem]

theorem needsImport_iff :
    i.needsImport content = true ↔ StandsAlone i.identifier content ∧ ¬ i.Imports content := by
  rw [needsImport, Bool.and_eq_true, mentions_iff, Bool.not_eq_true', ← isImported_iff,
    Bool.not_eq_true]

/-! ## The text with the statement -/

theorem canonical_prefix_statement (i : Importer) (path : Text) : i.canonical <+: i.statement path := by
  rw [statement, List.append_assoc, List.append_assoc, List.append_assoc]
  exact List.prefix_append _ _

theorem canonical_infix_insert (i : Importer) (path content : Text) :
    i.canonical <:+: i.insert path content := by
  obtain ⟨above, below, line, back, -, rfl, -, hinsert⟩ := insert_eq i path content
  have hline : i.statement path ++ back <:+: i.insert path content := by
    rw [hinsert]
    exact Text.infix_intercalate (by simp)
  exact ((i.canonical_prefix_statement path).trans (List.prefix_append _ _)).isInfix.trans hline

theorem insert_ne (i : Importer) (path content : Text) : i.insert path content ≠ content := by
  intro h
  have hlt := i.length_lines_lt_insert path content
  rw [h] at hlt
  exact lt_irrefl _ hlt

theorem canonical_eq (i : Importer) :
    i.canonical =
      ['i', 'm', 'p', 'o', 'r', 't', ' ', '\x7b', ' '] ++ i.identifier ++ [' ', '\x7d'] := by
  have hopen : "import \x7b ".toList = ['i', 'm', 'p', 'o', 'r', 't', ' ', '\x7b', ' '] := by decide
  have hclose : " \x7d".toList = [' ', '\x7d'] := by decide
  unfold canonical
  rw [hopen, hclose]

/-- The canonical spelling has a blank on either side of the name. -/
theorem standsAlone_of_canonical (h : i.canonical <:+: content) : StandsAlone i.identifier content := by
  have hblanks : ' ' :: i.identifier ++ [' '] <:+: i.canonical := by
    rw [canonical_eq]
    exact ⟨['i', 'm', 'p', 'o', 'r', 't', ' ', '\x7b'], ['\x7d'], by simp⟩
  exact StandsAlone.of_infix (by decide) (by decide) (hblanks.trans h)

/-! ## The text with an import, if it needs one -/

theorem ensure_of_imports (h : i.Imports content) : i.ensure path content = content := by
  rw [ensure, if_neg]
  rw [needsImport_iff]
  exact fun hneeds => hneeds.2 h

theorem ensure_of_not_standsAlone (h : ¬ StandsAlone i.identifier content) :
    i.ensure path content = content := by
  rw [ensure, if_neg]
  rw [needsImport_iff]
  exact fun hneeds => h hneeds.1

theorem ensure_of_not_imports (hname : StandsAlone i.identifier content) (h : ¬ i.Imports content) :
    i.ensure path content = i.insert path content := by
  rw [ensure, if_pos (needsImport_iff.mpr ⟨hname, h⟩)]

theorem ensure_of_ne (h : i.ensure path content ≠ content) :
    i.ensure path content = i.insert path content := by
  unfold ensure at h ⊢
  split at h
  · next hneeds => rw [if_pos hneeds]
  · exact absurd rfl h

/-- A text that mentions the name changes exactly if it does not import it. -/
theorem ensure_ne_iff (hname : StandsAlone i.identifier content) :
    i.ensure path content ≠ content ↔ ¬ i.Imports content := by
  constructor
  · exact fun hne h => hne (ensure_of_imports h)
  · intro h
    rw [ensure_of_not_imports hname h]
    exact i.insert_ne path content

theorem imports_ensure (hname : StandsAlone i.identifier content) :
    i.Imports (i.ensure path content) := by
  by_cases h : i.Imports content
  · rwa [ensure_of_imports h]
  · rw [ensure_of_not_imports hname h]
    exact Or.inl (i.canonical_infix_insert path content)

theorem standsAlone_ensure (hname : StandsAlone i.identifier content) :
    StandsAlone i.identifier (i.ensure path content) := by
  by_cases h : i.Imports content
  · rwa [ensure_of_imports h]
  · rw [ensure_of_not_imports hname h]
    exact standsAlone_of_canonical (i.canonical_infix_insert path content)

/-! ## The text with an import, once more -/

/-- No text needs an import once it was added. -/
theorem needsImport_ensure (i : Importer) (path content : Text) :
    i.needsImport (i.ensure path content) = false := by
  rw [Bool.eq_false_iff, Ne, needsImport_iff]
  rintro ⟨hname, hnot⟩
  by_cases hcontent : StandsAlone i.identifier content
  · exact hnot (imports_ensure hcontent)
  · rw [ensure_of_not_standsAlone hcontent] at hname
    exact hcontent hname

/-- **Adding the import again changes nothing**, also from another path, whatever text the name of the constant
object is. -/
theorem ensure_ensure (i : Importer) (path path' content : Text) :
    i.ensure path' (i.ensure path content) = i.ensure path content := by
  have hneeds : ¬ i.needsImport (i.ensure path content) = true := by
    rw [i.needsImport_ensure]
    exact Bool.false_ne_true
  exact if_neg hneeds

end Constify.Importer
