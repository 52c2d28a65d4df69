import Constify.Import.Insertion
import Constify.Proofs.Substitution.Lines

/-!
# Adding an import and the lines of a text

* `statementLine`, `Importer.insertedLine` : the number of the line that the statement gets, and that line;
* `Importer.insert_eq_intercalate`, `Importer.insert_eq` : it stands between the lines of the text;
* `not_infix_insert` : what stands neither in the text nor in that line stands nowhere afterwards;
* `statement_eq`, `not_infix_statement` : a statement has two quotes, and what is quoted with something
  before it stands in no statement, unless that stands before the module;
* `length_lines_lt_insert` : adding an import makes more lines.
-/

namespace Constify

open Text (splitOn)

/-! ## One line more -/

/-- The number of the line that an import statement gets: the first, or the one below the first declaration. -/
def statementLine (content : Text) : Nat :=
  match declarations content with
  | [] => 0
  | d :: _ => d.last + 1

namespace Importer

variable {i : Importer} {path content : Text}

theorem lineReturn_eq (line : Text) : lineReturn line = [] ∨ lineReturn line = ['\r'] := by
  unfold lineReturn
  split
  · exact Or.inr rfl
  · exact Or.inl rfl

/-- The statement with its line end: that of the line above it, at the top that of the first line. -/
def insertedLine (i : Importer) (path content : Text) : Text :=
  i.statement path ++ lineReturn ((splitOn '\n' content).getD (statementLine content - 1) [])

theorem exists_insertedLine_eq (i : Importer) (path content : Text) :
    ∃ back, (back = [] ∨ back = ['\r']) ∧ i.insertedLine path content = i.statement path ++ back :=
  ⟨_, lineReturn_eq _, rfl⟩

/-- The statement stands on its line, between the lines of the text. -/
theorem insert_eq_intercalate (i : Importer) (path content : Text) :
    i.insert path content =
      ['\n'].intercalate ((splitOn '\n' content).take (statementLine content) ++
        i.insertedLine path content :: (splitOn '\n' content).drop (statementLine content)) := by
  unfold insert insertedLine statementLine
  cases declarations content with
  | nil =>
    obtain ⟨p, ps, hps⟩ := List.exists_cons_of_ne_nil (Text.splitOn_ne_nil '\n' content)
    have hcontent := Text.intercalate_splitOn '\n' content
    rw [hps] at hcontent
    dsimp only
    rw [hps, List.take_zero, List.drop_zero, List.nil_append, List.intercalate_cons_cons, hcontent,
      List.append_assoc _ ['\n']]
    rfl
  | cons d ds => rfl

/-- Adding an import puts one line between the lines of the text. -/
theorem insert_eq (i : Importer) (path content : Text) :
    ∃ above below line back, splitOn '\n' content = above ++ below ∧
      line = i.statement path ++ back ∧ (back = [] ∨ back = ['\r']) ∧
      i.insert path content = ['\n'].intercalate (above ++ line :: below) := by
  obtain ⟨back, hback, hline⟩ := i.exists_insertedLine_eq path content
  exact ⟨_, _, _, back, (List.take_append_drop _ _).symm, hline, hback, i.insert_eq_intercalate path content⟩

theorem not_infix_insert {w : Text} (hw : '\n' ∉ w) (hcontent : ¬ w <:+: content)
    (hline : ¬ w <:+: i.insertedLine path content) : ¬ w <:+: i.insert path content := by
  rw [insert_eq_intercalate]
  intro h
  obtain ⟨g, hg, hwg⟩ := Text.exists_infix_of_infix_intercalate hw (by simp) h
  have hpiece : g ∈ splitOn '\n' content → False :=
    fun hmem => hcontent (hwg.trans (Text.infix_of_mem_splitOn hmem))
  rw [List.mem_append, List.mem_cons] at hg
  rcases hg with hg | rfl | hg
  · exact hpiece (List.mem_of_mem_take hg)
  · exact hline hwg
  · exact hpiece (List.mem_of_mem_drop hg)

end Importer

/-! ## The statement -/

theorem not_infix_of_two_quotes {f r x m y : Text} (hr : '"' ∈ r) (hx : '"' ∉ x) (hm : '"' ∉ m)
    (hy : '"' ∉ y) (hfx : ¬ f <:+ x) : ¬ f ++ '"' :: r <:+: x ++ '"' :: (m ++ '"' :: y) := by
  rintro ⟨a, b, h⟩
  -- one quote follows the front, so none stands before it
  have hcount := congrArg (List.count '"') h
  have hpos : 0 < r.count '"' := List.count_pos_iff.mpr hr
  simp only [List.count_append, List.count_cons_self, List.count_eq_zero.mpr hx,
    List.count_eq_zero.mpr hm, List.count_eq_zero.mpr hy] at hcount
  have ha : '"' ∉ a ++ f := by
    rw [← List.count_eq_zero, List.count_append]
    omega
  have hsplit : List.splitOn '"' ((a ++ f) ++ '"' :: (r ++ b)) =
      List.splitOn '"' (x ++ '"' :: (m ++ '"' :: y)) := by
    rw [← h]
    simp
  rw [List.splitOn_append_cons_self_of_not_mem ha,
    List.splitOn_append_cons_self_of_not_mem hx] at hsplit
  exact hfx ⟨a, (List.cons.inj hsplit).1⟩

namespace Importer

/-- What stands before the module in a statement, up to the quote. -/
def statementFront (i : Importer) : Text := i.canonical ++ [' ', 'f', 'r', 'o', 'm', ' ']

theorem statement_eq (i : Importer) (path back : Text) :
    i.statement path ++ back =
      i.statementFront ++ '"' :: ((i.layout.depth path).climb ++ i.module ++ '"' :: ';' :: back) := by
  have hfrom : " from \"".toList = [' ', 'f', 'r', 'o', 'm', ' ', '"'] := by decide
  have hend : "\";".toList = ['"', ';'] := by decide
  rw [statement, hfrom, hend, statementFront]
  simp

/-- Beside the name only these characters stand in the front of a statement. -/
theorem not_mem_canonical_of_not_mem {i : Importer} {c : Char} (hfixed : c ∉ "import \x7b \x7d".toList)
    (hname : c ∉ i.identifier) : c ∉ i.canonical := by
  have hopen : "import \x7b ".toList ⊆ "import \x7b \x7d".toList := by decide
  have hclose : " \x7d".toList ⊆ "import \x7b \x7d".toList := by decide
  unfold canonical
  simp only [List.mem_append, not_or]
  exact ⟨⟨fun h => hfixed (hopen h), hname⟩, fun h => hfixed (hclose h)⟩

theorem quote_not_mem_statementFront {i : Importer} (hid : isIdentifier i.identifier = true) :
    '"' ∉ i.statementFront := by
  rw [statementFront, List.mem_append, not_or]
  exact ⟨not_mem_canonical_of_not_mem (by decide) fun h => absurd (isIdentChar_of_mem hid h) (by decide),
    by decide⟩

theorem quote_not_mem_climb (d : Depth) : '"' ∉ d.climb := by
  cases d <;> decide

/-- What is quoted with something before it stands in no statement whose module holds no quote, unless
that stands before the module. -/
theorem not_infix_statement {i : Importer} (hid : isIdentifier i.identifier = true)
    (hm : '"' ∉ i.module) {f r : Text} (hr : '"' ∈ r) (hlen : f.length ≤ 6)
    (hf : ¬ f <:+ [' ', 'f', 'r', 'o', 'm', ' ']) (path : Text) {back : Text}
    (hback : back = [] ∨ back = ['\r']) : ¬ f ++ '"' :: r <:+: i.statement path ++ back := by
  rw [statement_eq]
  refine not_infix_of_two_quotes hr (quote_not_mem_statementFront hid) ?_ ?_ fun hsuffix => hf ?_
  · rw [List.mem_append]
    exact not_or.mpr ⟨quote_not_mem_climb _, hm⟩
  · rcases hback with rfl | rfl <;> decide
  · exact List.suffix_of_suffix_length_le hsuffix (List.suffix_append _ _) hlen

/-! ## The number of lines -/

theorem getLastD_splitOn_statement_ne_nil (i : Importer) (path : Text) {back : Text}
    (hback : back = [] ∨ back = ['\r']) :
    (splitOn '\n' (i.statement path ++ back)).getLastD [] ≠ [] := by
  intro h
  have hlast := Text.getLastD_splitOn_eq_nil h
  rw [statement_eq] at hlast
  rcases hback with rfl | rfl <;> simp [List.getLast?_append, List.getLast?_cons] at hlast

theorem length_lines_lt_insert (i : Importer) (path content : Text) :
    content.lines.length < (i.insert path content).lines.length := by
  obtain ⟨above, below, line, back, hsplit, rfl, hback, hinsert⟩ := insert_eq i path content
  have hpiece : ∀ g ∈ above ++ below, '\n' ∉ g := by
    intro g hg
    rw [← hsplit] at hg
    exact Text.not_mem_of_mem_splitOn hg
  have habove : above.flatMap (splitOn '\n') = above :=
    Text.flatMap_splitOn_of_forall fun g hg => hpiece g (List.mem_append_left _ hg)
  have hbelow : below.flatMap (splitOn '\n') = below :=
    Text.flatMap_splitOn_of_forall fun g hg => hpiece g (List.mem_append_right _ hg)
  rw [hinsert, Text.length_lines, Text.length_lines, hsplit,
    Text.splitOn_intercalate_eq_flatMap '\n' (by simp), List.flatMap_append, List.flatMap_cons, habove,
    hbelow]
  exact Text.lineCount_insert above below (Text.splitOn_ne_nil _ _)
    (getLastD_splitOn_statement_ne_nil i path hback)

end Importer

end Constify
