import Constify.Proofs.Import.Presence
import Constify.Proofs.Import.Printing

/-!
# The text with one import more

* `Importer.ofText_statement` : a statement is read as a declaration of the name;
* `Importer.not_mem_statement`, `Importer.braceBalance_statement` : it is one line and closes its braces;
* `exists_first_declaration` : the lines of a text around its first declaration;
* `statementLine_le` : the statement is put between two lines, or at an end;
* `Importer.splitOn_insert`, `Importer.declarations_insert` : the text has one line and one declaration more;
* `Importer.ensure_adds_line` : this is all that adding an import does.
-/

namespace Constify

open Text (splitOn)
open Declaration (isStart ofText ofLines extraLines braceBalance braceBalance_append quotedModule?)

/-! ## Reading a statement -/

namespace Importer

variable {i : Importer} {path content : Text}

/-- The name of the constant object as the only entry of a list. -/
def listed (i : Importer) (hid : isIdentifier i.identifier = true) : Names :=
  .listed none [⟨false, ⟨i.identifier, hid⟩, none⟩] false

theorem statement_eq_text (hid : isIdentifier i.identifier = true) (path back : Text) :
    i.statement path ++ back =
      "import ".toList ++ ((i.listed hid).text .inline ++
        (" from ".toList ++ '"' :: ((i.layout.depth path).climb ++ i.module ++ '"' :: ';' :: back))) := by
  have hlisted : (i.listed hid).text .inline = '{' :: ' ' :: (i.identifier ++ [' ', '}']) := by
    simp [listed, Names.text, Names.defaultText, Names.listText, ListStyle.inline, ListedName.text]
  have himport : "import ".toList = ['i', 'm', 'p', 'o', 'r', 't', ' '] := by decide
  have hfrom : " from ".toList = [' ', 'f', 'r', 'o', 'm', ' '] := by decide
  rw [statement_eq, statementFront, canonical_eq, hlisted, himport, hfrom]
  simp

theorem unmarked_climb (d : Depth) : Unmarked d.climb := by
  cases d <;> decide

/-- Beside the name and the module only these characters stand in a statement. -/
theorem not_mem_statement {c : Char} (hfixed : c ∉ "import \x7b \x7d from \"../\";".toList)
    (hname : c ∉ i.identifier) (hmodule : c ∉ i.module) : c ∉ i.statement path := by
  have hpart : ∀ t, t ⊆ "import \x7b \x7d from \"../\";".toList → c ∉ t := fun _ ht h => hfixed (ht h)
  have hclimb : (i.layout.depth path).climb ⊆ "import \x7b \x7d from \"../\";".toList := by
    cases i.layout.depth path <;> decide
  unfold statement
  simp only [List.mem_append, not_or]
  exact ⟨⟨⟨⟨not_mem_canonical_of_not_mem (hpart _ (by decide)) hname, hpart _ (by decide)⟩, hpart _ hclimb⟩,
    hmodule⟩, hpart _ (by decide)⟩

theorem isStart_insertedLine (i : Importer) (path content : Text) :
    isStart (i.insertedLine path content) = true := by
  have himport : "import ".toList <+: i.canonical := by
    rw [canonical_eq, List.append_assoc]
    exact ⟨'{' :: ' ' :: (i.identifier ++ [' ', '}']), rfl⟩
  rw [isStart, List.isPrefixOf_iff_prefix, insertedLine]
  exact (himport.trans (i.canonical_prefix_statement path)).trans (List.prefix_append _ _)

theorem newline_not_mem_insertedLine (hname : '\n' ∉ i.identifier) (hmodule : '\n' ∉ i.module) :
    '\n' ∉ i.insertedLine path content := by
  obtain ⟨back, hback, hline⟩ := i.exists_insertedLine_eq path content
  rw [hline, List.mem_append, not_or]
  refine ⟨not_mem_statement (by decide) hname hmodule, ?_⟩
  rcases hback with rfl | rfl <;> decide

section

variable (hid : isIdentifier i.identifier = true) (hmodule : Unmarked i.module)

include hid hmodule

theorem ofText_statement {back : Text} (path : Text) (first last : Nat) :
    ofText first last (i.statement path ++ back) =
      ⟨first, last, [i.identifier], some ((i.layout.depth path).climb ++ i.module)⟩ := by
  have hquoted : quotedModule? ('"' :: ((i.layout.depth path).climb ++ i.module ++ '"' :: ';' :: back)) =
      some ((i.layout.depth path).climb ++ i.module) := by
    refine Declaration.quotedModule?_eq_some_iff.mpr ⟨'"', '"', ';' :: back, rfl, rfl, rfl, fun c hc => ?_⟩
    exact (unmarked_append.mpr ⟨unmarked_climb _, hmodule⟩ c hc).1
  have hitems : ∀ item ∈ (i.listed hid).items, item.alias?.isSome = true → item.name.1 ≠ "type".toList := by
    rintro item hitem halias
    obtain rfl := List.mem_singleton.mp hitem
    cases halias
  have hclause := (i.listed hid).clause?_text .inline hitems (by rintro name ⟨⟩) false hquoted
  rw [if_neg (by decide), ← statement_eq_text hid] at hclause
  rw [Declaration.ofText_of_clause? hclause, Names.bindings_text .inline hitems]
  rfl

theorem braceBalance_statement (path : Text) : braceBalance (i.statement path) = 0 := by
  have hname := unmarked_of_isIdentifier hid
  have hclimb := unmarked_climb (i.layout.depth path)
  have hparts : braceBalance i.identifier = 0 ∧ braceBalance (i.layout.depth path).climb = 0 ∧
      braceBalance i.module = 0 :=
    ⟨Declaration.braceBalance_eq_zero hname.not_open hname.not_close,
      Declaration.braceBalance_eq_zero hclimb.not_open hclimb.not_close,
      Declaration.braceBalance_eq_zero hmodule.not_open hmodule.not_close⟩
  unfold statement canonical
  simp only [braceBalance_append, hparts]
  decide

theorem braceBalance_insertedLine (path content : Text) : braceBalance (i.insertedLine path content) = 0 := by
  obtain ⟨back, hback, hline⟩ := i.exists_insertedLine_eq path content
  rw [hline, braceBalance_append, braceBalance_statement hid hmodule, Int.zero_add]
  rcases hback with rfl | rfl <;> decide

end

end Importer

/-! ## The first declaration -/

/-- A text has no declaration, or its lines are some that start none, and then those of the first one; the
statement is put at the top, or below these. -/
theorem exists_first_declaration (content : Text) :
    (declarations content = [] ∧ statementLine content = 0) ∨
      ∃ above line following, splitOn '\n' content = above ++ line :: following ∧
        (∀ l ∈ above, isStart l = false) ∧ isStart line = true ∧
        statementLine content = above.length + (extraLines line following + 1) := by
  rcases Declaration.exists_first_start (splitOn '\n' content) with hnone | ⟨above, line, following, hlines,
    habove, hline⟩
  · have hnil := Declaration.ofLines_append hnone 0 []
    rw [List.append_nil, Declaration.ofLines_nil, ← declarations] at hnil
    exact Or.inl ⟨hnil, by rw [statementLine, hnil]⟩
  · refine Or.inr ⟨above, line, following, hlines, habove, hline, ?_⟩
    rw [statementLine, declarations, hlines, Declaration.ofLines_append habove, Declaration.ofLines_cons hline]
    dsimp only
    rw [Declaration.last_ofText, Nat.zero_add, Nat.add_assoc]

theorem statementLine_le (content : Text) : statementLine content ≤ (splitOn '\n' content).length := by
  rcases exists_first_declaration content with ⟨-, hzero⟩ | ⟨above, line, following, hlines, -, -, hplace⟩
  · rw [hzero]
    exact Nat.zero_le _
  · have hle := Declaration.extraLines_le line following
    rw [hplace, hlines, List.length_append, List.length_cons]
    omega

/-! ## The lines and declarations with a statement -/

namespace Importer

variable {i : Importer} {path content : Text}

/-- The lines are those of the text with the statement between them. -/
theorem splitOn_insert (hname : '\n' ∉ i.identifier) (hmodule : '\n' ∉ i.module) (path content : Text) :
    splitOn '\n' (i.insert path content) =
      (splitOn '\n' content).take (statementLine content) ++
        i.insertedLine path content :: (splitOn '\n' content).drop (statementLine content) := by
  rw [insert_eq_intercalate, Text.splitOn_intercalate (by simp)]
  intro g hg
  rw [List.mem_append, List.mem_cons] at hg
  rcases hg with hg | rfl | hg
  · exact Text.not_mem_of_mem_splitOn (List.mem_of_mem_take hg)
  · exact newline_not_mem_insertedLine hname hmodule
  · exact Text.not_mem_of_mem_splitOn (List.mem_of_mem_drop hg)

/-- The declaration that a statement is read as, if it stands on the given line. -/
def declared (i : Importer) (path : Text) (n : Nat) : Declaration :=
  ⟨n, n, [i.identifier], some ((i.layout.depth path).climb ++ i.module)⟩

/-- The declarations are those of the text with the statement as the second one, or as the only one. -/
theorem declarations_insert (hid : isIdentifier i.identifier = true) (hmodule : Unmarked i.module)
    (hnewline : '\n' ∉ i.module) (path content : Text) :
    declarations (i.insert path content) =
      (declarations content).take 1 ++ i.declared path (statementLine content) ::
        ((declarations content).drop 1).map Declaration.shifted := by
  have hname : '\n' ∉ i.identifier := fun h => absurd (isIdentChar_of_mem hid h) (by decide)
  have hbalance := braceBalance_insertedLine hid hmodule path content
  have hstatement : ∀ n below, ofLines n (i.insertedLine path content :: below) =
      i.declared path n :: (ofLines n below).map Declaration.shifted := by
    intro n below
    obtain ⟨back, -, hline⟩ := i.exists_insertedLine_eq path content
    rw [Declaration.ofLines_cons_of_balance (i.isStart_insertedLine path content) hbalance.le,
      Declaration.ofLines_succ, hline, ofText_statement hid hmodule, declared]
  rw [declarations, splitOn_insert hname hnewline]
  rcases exists_first_declaration content with ⟨hnil, hzero⟩ | ⟨above, line, following, hlines, habove, hline,
    hplace⟩
  · rw [hzero, List.take_zero, List.drop_zero, List.nil_append, hstatement, ← declarations, hnil]
    rfl
  · -- the first declaration ends where it did, so what follows is read from its end
    have hextra := Declaration.extraLines_insert hbalance line following
    have hextraLength := List.length_take_of_le (Declaration.extraLines_le line following)
    rw [declarations, hlines, hplace, List.take_length_add_append, List.drop_length_add_append,
      List.take_succ_cons, List.drop_succ_cons, List.append_assoc, List.cons_append,
      Declaration.ofLines_append habove, Declaration.ofLines_append habove, Declaration.ofLines_cons hline,
      Declaration.ofLines_cons hline, hextra, List.take_left' hextraLength, List.drop_left' hextraLength,
      hstatement]
    rw [List.take_succ_cons, List.take_zero, List.drop_succ_cons, List.drop_zero, List.singleton_append,
      Nat.zero_add, Nat.add_assoc]

/-- **Adding an import adds one line and one declaration.** A text that does not mention the name, or imports it,
is not changed. Any other gets the statement as one line more, at the top or below its first declaration, which
is read as one declaration more; the later ones are one line further down. -/
theorem ensure_adds_line (hid : isIdentifier i.identifier = true) (hmodule : Unmarked i.module)
    (hnewline : '\n' ∉ i.module) (path content : Text) :
    (¬ (StandsAlone i.identifier content ∧ ¬ i.Imports content) ∧ i.ensure path content = content) ∨
      ((StandsAlone i.identifier content ∧ ¬ i.Imports content) ∧
        statementLine content ≤ (splitOn '\n' content).length ∧
        splitOn '\n' (i.ensure path content) =
          (splitOn '\n' content).take (statementLine content) ++
            i.insertedLine path content :: (splitOn '\n' content).drop (statementLine content) ∧
        declarations (i.ensure path content) =
          (declarations content).take 1 ++ i.declared path (statementLine content) ::
            ((declarations content).drop 1).map Declaration.shifted) := by
  have hname : '\n' ∉ i.identifier := fun h => absurd (isIdentChar_of_mem hid h) (by decide)
  by_cases hneeds : StandsAlone i.identifier content ∧ ¬ i.Imports content
  · refine Or.inr ⟨hneeds, statementLine_le content, ?_⟩
    rw [ensure_of_not_imports hneeds.1 hneeds.2]
    exact ⟨splitOn_insert hname hnewline path content, declarations_insert hid hmodule hnewline path content⟩
  · refine Or.inl ⟨hneeds, ?_⟩
    rw [ensure, if_neg (fun h => hneeds (needsImport_iff.mp h))]

/-- A text whose first declaration does not close its brace. -/
def unclosedText : Text :=
  "// \x7b\r\nimport \x7b a,\r\nimport \x7b b as c \x7d from 'b';\r\nTags.fats;".toList

theorem ensure_adds_line_unclosed :
    splitOn '\n' (tagsImporter.ensure "a.ts".toList unclosedText) =
        ["// \x7b\r".toList, "import \x7b a,\r".toList, "import \x7b Tags \x7d from \"../tags\";\r".toList,
          "import \x7b b as c \x7d from 'b';\r".toList, "Tags.fats;".toList] ∧
      declarations (tagsImporter.ensure "a.ts".toList unclosedText) =
        [⟨1, 1, [], none⟩, ⟨2, 2, ["Tags".toList], some "../tags".toList⟩,
          ⟨3, 3, ["c".toList], some "b".toList⟩] := by
  have hneeds : StandsAlone tagsImporter.identifier unclosedText ∧ ¬ tagsImporter.Imports unclosedText :=
    needsImport_iff.mp (by decide +kernel)
  rcases ensure_adds_line (i := tagsImporter) (by decide) (by decide) (by decide) "a.ts".toList unclosedText with
    ⟨hnot, -⟩ | ⟨-, -, hlines, hdecls⟩
  · exact absurd hneeds hnot
  · rw [hlines, hdecls]
    exact ⟨by decide +kernel, by decide +kernel⟩

end Importer

end Constify
