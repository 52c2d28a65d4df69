import Constify.Proofs.Import.Insertion
import Constify.Proofs.Substitution.Idempotence
import Constify.Revision

/-!
# Revising a text

* `Importer.not_infix_ensure` : adding the import brings no pattern;
* `Lifter.Consistent` : a lifter whose import statements hold no pattern of its table;
* `Lifter.after_revise_after` : a revised text is its own revision;
* `Lifter.lines_ne_of_changed` : a text that changes has other lines.
-/

namespace Constify

/-! ## The import -/

namespace Importer

theorem not_infix_ensure {i : Importer} (hid : isIdentifier i.identifier = true)
    (hm : '"' ∉ i.module) {t : Table} {s : Substitution} (hs : s ∈ t.substitutions)
    (path : Text) {content : Text} (h : ¬ s.pattern <:+: content) :
    ¬ s.pattern <:+: i.ensure path content := by
  unfold ensure
  split
  · obtain ⟨back, hback, hline⟩ := i.exists_insertedLine_eq path content
    obtain ⟨r, hp, hr⟩ := Table.exists_pattern_eq hs
    refine not_infix_insert (Table.newline_not_mem_pattern hs) h ?_
    rw [hp, hline]
    refine not_infix_statement hid hm hr ?_ ?_ path hback
    · cases s.context <;> decide
    · cases s.context <;> decide
  · exact h

end Importer

/-! ## Revising twice -/

namespace Lifter

/-- The import statements name the object of the table and a module without a quote, and the table
holds no literal that looks like a reference. -/
structure Consistent (l : Lifter) : Prop where
  unmixed : l.table.Unmixed
  identifier : l.importer.identifier = l.table.identifier
  module : '"' ∉ l.importer.module

theorem revise_of_not_infix {l : Lifter} {content : Text}
    (h : ∀ s ∈ l.table.substitutions, ¬ s.pattern <:+: content) (place : Text) :
    l.revise place content =
      { path := place, before := content, after := content, hits := [], importAdded := false } := by
  unfold revise
  rw [Table.lift_of_not_infix h]
  exact if_pos rfl

/-- **A revised text is its own revision.** -/
theorem after_revise_after {l : Lifter} (hl : l.Consistent) (place before : Text) :
    (l.revise place (l.revise place before).after).after = (l.revise place before).after := by
  have hid : isIdentifier l.importer.identifier = true := by
    rw [hl.identifier]
    exact l.table.identifier_valid
  by_cases h : (l.table.lift before).content = before
  · have hafter : (l.revise place before).after = before := by
      unfold revise
      rw [if_pos h]
    rw [hafter, hafter]
  · have hafter : (l.revise place before).after =
        l.importer.ensure place (l.table.lift before).content := by
      unfold revise
      rw [if_neg h]
    rw [hafter, revise_of_not_infix]
    exact fun s hs => Importer.not_infix_ensure hid hl.module hs place
      (Table.not_infix_lift hl.unmixed hs before)

/-! ## Lines -/

/-- Where a literal was replaced the lines are others, and not only the line ends: either a line was
added for the import, or double quotes went. -/
theorem lines_ensure_lift_ne {l : Lifter} {before : Text} (h : (l.table.lift before).content ≠ before)
    (place : Text) :
    (l.importer.ensure place (l.table.lift before).content).lines ≠ before.lines := by
  intro heq
  unfold Importer.ensure at heq
  split at heq
  · have hlt := l.importer.length_lines_lt_insert place (l.table.lift before).content
    rw [heq, l.table.length_lines_lift] at hlt
    exact lt_irrefl _ hlt
  · rcases l.table.count_quote_lift before with hsame | ⟨-, hlt⟩
    · exact h (by rw [hsame])
    · rw [← Text.count_lines (by decide) (by decide), heq,
        Text.count_lines (by decide) (by decide)] at hlt
      exact lt_irrefl _ hlt

theorem after_revise_ne {l : Lifter} {before : Text} (h : (l.table.lift before).content ≠ before)
    (place : Text) : (l.revise place before).after ≠ before := by
  unfold revise
  rw [if_neg h]
  exact fun heq => lines_ensure_lift_ne h place (congrArg Text.lines heq)

theorem lines_ne_of_changed {l : Lifter} {place before : Text}
    (h : (l.revise place before).changed = true) :
    before.lines ≠ (l.revise place before).after.lines := by
  unfold revise at h ⊢
  dsimp only at h ⊢
  by_cases hlift : (l.table.lift before).content = before
  · rw [if_pos hlift] at h
    simp [Revision.changed] at h
  · rw [if_neg hlift]
    exact (lines_ensure_lift_ne hlift place).symm

end Lifter

end Constify
