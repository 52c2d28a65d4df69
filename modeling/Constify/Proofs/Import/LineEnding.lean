import Constify.Proofs.Import.Addition

/-!
# Line ends around a statement

* `Importer.getLast?_insertedLine` : the line of the statement ends as the line that decides it;
* `Importer.crLf_insert_iff` : where the statement breaks a text whose line feeds stand behind carriage returns;
* `Importer.return_not_mem_insert` : it brings no carriage return to a text without one;
* `Importer.crLf_ensure_iff` : so line ends are kept, unless the first declaration ends the text without one;
* `Importer.mixes_openText` : then the statement stands behind a bare line feed.
-/

namespace Constify.Importer

open Text (splitOn CrLf)

variable {i : Importer} {path content : Text}

theorem getLast?_insertedLine (i : Importer) (path content : Text) :
    (i.insertedLine path content).getLast? = some '\r' ↔
      ((splitOn '\n' content).getD (statementLine content - 1) []).getLast? = some '\r' := by
  have hstatement : (i.statement path).getLast? = some ';' := by
    have hend : "\";".toList = ['"', ';'] := by decide
    rw [statement, hend, List.getLast?_append_cons]
    rfl
  rw [insertedLine, lineReturn]
  split
  · next h =>
    rw [List.getLast?_concat]
    exact iff_of_true rfl h
  · next h =>
    rw [List.append_nil, hstatement]
    exact iff_of_false (by decide) h

section

variable (hname : '\n' ∉ i.identifier) (hmodule : '\n' ∉ i.module)

include hname hmodule

/-- The statement stands behind a carriage return and a line feed, or below the last line, which is not
ended. -/
theorem crLf_insert_iff (hmem : '\n' ∈ content) (h : CrLf content) :
    CrLf (i.insert path content) ↔
      statementLine content < (splitOn '\n' content).length ∨ content.getLast? = some '\r' := by
  have hlength : 2 ≤ (splitOn '\n' content).length := by
    have := List.count_pos_iff.mpr hmem
    rw [Text.length_splitOn]
    omega
  have hnew := i.getLast?_insertedLine path content
  have hlast := Text.getLast?_getLast_splitOn (by decide : '\r' ≠ '\n') content
  rw [Text.crLf_iff] at h ⊢
  rw [splitOn_insert hname hmodule]
  generalize i.insertedLine path content = new at hnew ⊢
  rcases (statementLine_le content).lt_or_eq with hlt | heq
  · -- a line follows the statement, and the line that decides its end is not the last one
    have hdrop : (splitOn '\n' content).drop (statementLine content) ≠ [] := by simpa using hlt
    have hlines : (splitOn '\n' content).dropLast = (splitOn '\n' content).take (statementLine content) ++
        ((splitOn '\n' content).drop (statementLine content)).dropLast := by
      rw [← List.dropLast_append_of_ne_nil hdrop, List.take_append_drop]
    have hdecides : new.getLast? = some '\r' := by
      have hindex : statementLine content - 1 < (splitOn '\n' content).dropLast.length := by
        rw [List.length_dropLast]
        omega
      rw [hnew, List.getD_eq_getElem?_getD, List.getElem?_eq_getElem (by omega), Option.getD_some,
        ← List.getElem_dropLast hindex]
      exact h _ (List.getElem_mem hindex)
    refine iff_of_true ?_ (Or.inl hlt)
    rw [hlines, List.forall_mem_append] at h
    rw [List.dropLast_append_of_ne_nil (by simp), List.dropLast_cons_of_ne_nil hdrop, List.forall_mem_append,
      List.forall_mem_cons]
    exact ⟨h.1, hdecides, h.2⟩
  · -- the lines in front of the statement are those of the text
    have hne := Text.splitOn_ne_nil '\n' content
    rw [heq, List.take_length, List.drop_length, List.dropLast_concat, or_iff_right (lt_irrefl _), ← hlast]
    constructor
    · exact fun hall => hall _ (List.getLast_mem hne)
    · intro hend line hline
      rw [← List.dropLast_append_getLast hne, List.mem_append, List.mem_singleton] at hline
      rcases hline with hline | rfl
      · exact h line hline
      · exact hend

end

theorem return_not_mem_insert (hname : '\r' ∉ i.identifier) (hmodule : '\r' ∉ i.module)
    (h : '\r' ∉ content) : '\r' ∉ i.insert path content := by
  have hline : ((splitOn '\n' content).getD (statementLine content - 1) []).getLast? ≠ some '\r' := by
    intro hlast
    rw [List.getD_eq_getElem?_getD] at hlast
    cases hget : (splitOn '\n' content)[statementLine content - 1]? with
    | none => simp [hget] at hlast
    | some line =>
      rw [hget, Option.getD_some] at hlast
      have hin := Text.infix_of_mem_splitOn (List.mem_of_getElem? hget)
      exact h (hin.subset (List.mem_of_getLast? hlast))
  have hinserted : i.insertedLine path content = i.statement path := by
    rw [insertedLine, lineReturn, if_neg hline, List.append_nil]
  rw [← List.singleton_infix_iff] at h ⊢
  refine not_infix_insert (by decide) h ?_
  rw [hinserted, List.singleton_infix_iff]
  exact not_mem_statement (by decide) hname hmodule

/-- **Line ends are kept, unless the first declaration ends the text without one.** In a text whose line feeds
all stand behind carriage returns they still do so with the statement, except where this stands below the last
line and that line has no carriage return at its end; a text without a carriage return gets none. -/
theorem crLf_ensure_iff (hname : '\r' ∉ i.identifier ∧ '\n' ∉ i.identifier)
    (hmodule : '\r' ∉ i.module ∧ '\n' ∉ i.module) (path content : Text) :
    ('\n' ∈ content → CrLf content →
      (CrLf (i.ensure path content) ↔
        i.ensure path content = content ∨ statementLine content < (splitOn '\n' content).length ∨
          content.getLast? = some '\r')) ∧
      ('\r' ∉ content → '\r' ∉ i.ensure path content) := by
  by_cases hsame : i.ensure path content = content
  · rw [hsame]
    exact ⟨fun _ h => iff_of_true h (Or.inl rfl), id⟩
  · rw [ensure_of_ne hsame, or_iff_right (i.insert_ne path content)]
    exact ⟨crLf_insert_iff hname.2 hmodule.2, return_not_mem_insert hname.1 hmodule.1⟩

theorem crLf_ensure_iff_hooks :
    CrLf (tagsImporter.ensure "a.ts".toList "import \x7b\r\n  a\r\n\x7d from \"a\";\r\nTags.fats;".toList) ∧
      '\r' ∉ tagsImporter.ensure "a.ts".toList "Tags.fats;\nimport \"a\";".toList := by
  refine ⟨((crLf_ensure_iff (i := tagsImporter) (by decide) (by decide) "a.ts".toList _).1 (by decide)
    (by decide)).mpr (Or.inr (Or.inl (by decide +kernel))), ?_⟩
  exact (crLf_ensure_iff (i := tagsImporter) (by decide) (by decide) "a.ts".toList _).2 (by decide)

/-- A text with carriage returns that ends with its first declaration. -/
def openText : Text := "Tags.fats;\r\nimport a from \"a\";".toList

/-- The statement stands behind the only line feed without a carriage return. -/
theorem mixes_openText :
    '\n' ∈ openText ∧ CrLf openText ∧
      tagsImporter.ensure "a.ts".toList openText =
        openText ++ "\nimport \x7b Tags \x7d from \"../tags\";".toList ∧
      ¬ CrLf (tagsImporter.ensure "a.ts".toList openText) := by
  refine ⟨by decide, by decide, by decide +kernel, by decide +kernel⟩

end Constify.Importer
