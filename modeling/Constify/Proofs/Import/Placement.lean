import Constify.Proofs.Import.Presence
import Constify.Proofs.Import.Syntax

/-!
# Where the statement is put

* `Importer.insert_eq_of_first` : the statement stands at the end of a line of the text, which the first
  declaration takes that many lines to reach;
* `BreaksInBraces` : the line breaks of a declaration are between its braces;
* `Importer.keeps_written_iff` : the statement stands below a written declaration exactly if this is so and
  the braces are closed at the end of some line, or the declaration is on one line;
* `Importer.splits_brokenImport` : otherwise the statement splits it.
-/

namespace Constify

open Text (StartsLine splitOn)

/-! ## The place of the statement -/

namespace Importer

/-- The statement is put at the end of the line that the first declaration ends on. -/
theorem insert_eq_of_last (i : Importer) (path : Text) {x y : Text} {d : Declaration}
    {ds : List Declaration} (hy : StartsLine y) (hdecls : declarations (x ++ y) = d :: ds)
    (hlast : d.last = x.count '\n') :
    ∃ back, i.insert path (x ++ y) = x ++ '\n' :: (i.statement path ++ (back ++ y)) := by
  obtain ⟨below, hlines, hinsert⟩ := Text.splitOn_append_of_startsLine x hy
  have hlength : d.last + 1 = (splitOn '\n' x).length := by rw [hlast, Text.length_splitOn]
  refine ⟨lineReturn ((splitOn '\n' (x ++ y)).getD d.last []), ?_⟩
  rw [insert, hdecls]
  dsimp only
  rw [hlines, hlength, List.take_left, List.drop_left, hinsert, List.append_assoc]

/-- The statement stands at the end of a line of the text that starts the first declaration, as many lines
down as the declaration takes. -/
theorem insert_eq_of_first (i : Importer) (path : Text) {above : List Text} {t line : Text}
    {following : List Text} (habove : ∀ l ∈ above, '\n' ∉ l ∧ ¬ "import ".toList <+: l)
    (hlines : splitOn '\n' t = line :: following) (hstart : Declaration.isStart line = true) :
    ∃ x y back, t = x ++ y ∧ StartsLine y ∧
      x.count '\n' = Declaration.extraLines line following ∧
        i.insert path (unlines above ++ t) =
          unlines above ++ (x ++ '\n' :: (i.statement path ++ (back ++ y))) := by
  obtain ⟨x, y, rfl, hy, hx, -⟩ := Declaration.exists_count_eq_extraLines hlines
  have hfree : ∀ l ∈ above, '\n' ∉ l := fun l hl => (habove l hl).1
  have hdecls := Declaration.ofLines_append
    (fun l hl => Declaration.isStart_eq_false (habove l hl).2) 0 (line :: following)
  rw [← hlines, ← Text.splitOn_unlines_append hfree, hlines, Declaration.ofLines_cons hstart,
    ← List.append_assoc] at hdecls
  have hlast : (unlines above ++ x).count '\n' = 0 + above.length + x.count '\n' := by
    have hlength := Text.length_splitOn '\n' (unlines above ++ x)
    rw [Text.splitOn_unlines_append hfree, List.length_append, Text.length_splitOn] at hlength
    omega
  obtain ⟨back, hinsert⟩ := insert_eq_of_last i path hy hdecls (by
    rw [hlast, hx, Declaration.last_ofText])
  refine ⟨x, y, back, rfl, hy, hx, ?_⟩
  rw [← List.append_assoc, hinsert, List.append_assoc]

end Importer

/-! ## Declarations that stay in one piece -/

/-- At every line break of the text a brace has been opened and none has been closed. -/
def BreaksInBraces (text : Text) : Prop := ∀ a b, text = a ++ '\n' :: b → '{' ∈ a ∧ '}' ∉ a

instance : DecidablePred BreaksInBraces := fun text =>
  decidable_of_iff
    (∀ n < text.length, text[n]? = some '\n' → '{' ∈ text.take n ∧ '}' ∉ text.take n) <| by
      constructor
      · rintro h a b rfl
        simpa using h a.length (by simp) (by simp)
      · intro h n hn hnewline
        refine h (text.take n) (text.drop (n + 1)) ?_
        obtain ⟨_, hget⟩ := List.getElem?_eq_some_iff.mp hnewline
        rw [← hget, ← List.drop_eq_getElem_cons hn, List.take_append_drop]

/-- A declaration takes all lines of its text exactly if its line breaks are between its braces and these
are closed. -/
theorem Import.count_le_extraLines_iff {d : Import} {text rest line : Text} {following : List Text}
    (htext : d.Written text) (hlines : splitOn '\n' (text ++ rest) = line :: following) :
    text.count '\n' ≤ Declaration.extraLines line following ↔
      ('\n' ∈ text → BreaksInBraces text ∧ ClosesBraces text rest) := by
  by_cases hmem : '\n' ∈ text
  · have hbreaks : (∀ a b, text = a ++ '\n' :: b → 0 < Declaration.braceBalance a) ↔ BreaksInBraces text :=
      forall_congr' fun a => forall_congr' fun b => imp_congr_right fun hab =>
        Import.braceBalance_pos_iff htext hab
    rw [Declaration.count_le_extraLines_iff hlines hmem, hbreaks]
    simp only [hmem, forall_const]
  · simp [hmem, List.count_eq_zero.mpr hmem]

theorem Import.quote_mem_of_newline {d : Import} {text a b : Text} (h : d.Written text)
    (hab : text = a ++ '\n' :: b) : d.source.quote ∈ b := by
  obtain ⟨front, rfl, -, -⟩ := exists_front_eq h
  have hlast := congrArg List.getLast? hab
  rw [Quoted.text, ← List.cons_append, ← List.append_assoc, List.getLast?_concat, List.getLast?_append_cons]
    at hlast
  cases b with
  | nil =>
    have hquote : d.source.quote = '\n' := by simpa using hlast
    rcases d.source.quote_valid with hq | hq <;> rw [hq] at hquote <;> cases hquote
  | cons c cs =>
    rw [List.getLast?_cons_cons] at hlast
    exact List.mem_of_getLast? hlast.symm

namespace Importer

variable {i : Importer} {path : Text}

theorem not_mem_canonical {c : Char} (hid : isIdentifier i.identifier = true) (hc : isIdentChar c = false)
    (hfree : c ∉ ['\x7b', ' ', '\x7d']) : c ∉ i.canonical := by
  have hfixed : ∀ x ∈ "import \x7b \x7d".toList, isIdentChar x = true ∨ x ∈ ['\x7b', ' ', '\x7d'] := by
    decide
  refine not_mem_canonical_of_not_mem (fun h => ?_) fun h => ?_
  · exact (hfixed c h).elim (by simp [hc]) hfree
  · exact absurd (isIdentChar_of_mem hid h) (by simp [hc])

/-- **The statement stands below a declaration exactly if the declaration is on one line, or all its line
breaks are between its braces and these are closed at the end of some line.** The declaration is the first of
the text; it is written in any layout. -/
theorem keeps_written_iff {d : Import} {above : List Text} {text rest : Text}
    (hid : isIdentifier i.identifier = true)
    (habove : ∀ l ∈ above, '\n' ∉ l ∧ ¬ "import ".toList <+: l) (htext : d.Written text)
    (hne : i.ensure path (unlines above ++ (text ++ rest)) ≠ unlines above ++ (text ++ rest)) :
    (∃ x y, i.ensure path (unlines above ++ (text ++ rest)) =
        unlines above ++ (text ++ (x ++ '\n' :: (i.statement path ++ y)))) ↔
      ('\n' ∈ text → BreaksInBraces text ∧ ClosesBraces text rest) := by
  obtain ⟨front, hfront, himport, -⟩ := Import.exists_front_eq htext
  have hstart : "import ".toList <+: text ++ rest := by
    rw [hfront, List.append_assoc]
    exact himport.trans (List.prefix_append _ _)
  obtain ⟨line, following, hlines, hline⟩ := Declaration.exists_splitOn_eq_of_prefix hstart
  obtain ⟨x, y, back, hxy, hy, hx, hinsert⟩ := insert_eq_of_first i path habove hlines hline
  have hneeds : i.needsImport (unlines above ++ (text ++ rest)) = true := by
    by_contra h
    exact hne (by rw [ensure, if_neg h])
  rw [ensure, if_pos hneeds, hinsert, ← Import.count_le_extraLines_iff htext hlines, ← hx]
  rcases Text.append_eq_append_of_startsLine hy hxy with ⟨hlt, v, hv, hyv⟩ | ⟨hle, v, rfl, -⟩
  · refine iff_of_false ?_ (by omega)
    rintro ⟨x', y', heq⟩
    -- the statement would start with what is left of the declaration, its closing quote in it
    obtain ⟨r, hr⟩ := canonical_prefix_statement i path
    have hrest : i.canonical ++ (r ++ (back ++ y)) = v ++ (x' ++ '\n' :: (i.statement path ++ y')) := by
      rw [hv, List.append_assoc x, List.append_cancel_left_eq, List.append_cancel_left_eq,
        List.cons_append, List.cons.injEq] at heq
      rw [← List.append_assoc, hr]
      exact heq.2
    rcases List.append_eq_append_iff.mp hrest with ⟨w, rfl, -⟩ | ⟨w, hw, -⟩
    · refine (needsImport_iff.mp hneeds).2 (Or.inl ⟨unlines above ++ (x ++ ['\n']), w ++ rest, ?_⟩)
      rw [hv]
      simp
    · have hquote := Import.quote_mem_of_newline htext hv
      rcases d.source.quote_valid with hq | hq <;> rw [hq] at hquote
      · exact not_mem_canonical hid (by decide) (by decide) (hw ▸ List.mem_append_left w hquote)
      · exact not_mem_canonical hid (by decide) (by decide) (hw ▸ List.mem_append_left w hquote)
  · refine iff_of_true ⟨v, back ++ y, by simp⟩ hle

def hooksImport : Import where
  names? := some (false, .listed (some ⟨"React".toList, by decide⟩)
    [⟨false, ⟨"useState".toList, by decide⟩, none⟩, ⟨true, ⟨"Ref".toList, by decide⟩, none⟩] true)
  source := .single "react".toList (by decide)

def hooksText : Text := "import React, \x7b\n\tuseState, type Ref,\r\n\x7dfrom 'react'".toList

theorem written_hooksImport : hooksImport.Written hooksText := by
  refine ⟨[] ++ ("React".toList ++ ([] ++ ([','] ++ ([' '] ++ (['{'] ++ ("\n\t".toList ++
    ("useState".toList ++ ([] ++ ([','] ++ ([' '] ++ ("type".toList ++ ([' '] ++ ("Ref".toList ++
    ([] ++ ([','] ++ ("\r\n".toList ++ (['}'] ++ ([] ++ ("from".toList ++ ([' '] ++
    ("'react'".toList ++ []))))))))))))))))))))), ?_, rfl⟩
  repeat refine Spaced.cons (by decide) ?_ (by decide)
  exact Spaced.nil

theorem keeps_written_iff_hooksImport :
    ∃ x y, tagsImporter.ensure "a.ts".toList
        (unlines ["// hooks".toList] ++ (hooksText ++ ";\nTags.fats\n".toList)) =
      unlines ["// hooks".toList] ++
        (hooksText ++ (x ++ '\n' :: (tagsImporter.statement "a.ts".toList ++ y))) := by
  refine (keeps_written_iff (by decide) (by decide) written_hooksImport (by decide +kernel)).mpr
    fun _ => ⟨?_, ?_⟩
  · decide +kernel
  · exact ⟨[';'], "\nTags.fats\n".toList, rfl, by simp [StartsLine], by decide⟩

/-- A declaration with a line break in front of its braces. -/
def brokenImport : Import where
  names? := some (false, .listed (some ⟨"React".toList, by decide⟩)
    [⟨false, ⟨"useState".toList, by decide⟩, none⟩] false)
  source := .double "react".toList (by decide)

def brokenText : Text := "import React,\n  \x7b useState \x7d from \"react\"".toList

theorem written_brokenImport : brokenImport.Written brokenText := by
  refine ⟨[] ++ ("React".toList ++ ([] ++ ([','] ++ ("\n  ".toList ++ (['{'] ++ ([' '] ++
    ("useState".toList ++ ([' '] ++ (['}'] ++ ([' '] ++ ("from".toList ++ ([' '] ++
    ("\"react\"".toList ++ []))))))))))))), ?_, rfl⟩
  repeat refine Spaced.cons (by decide) ?_ (by decide)
  exact Spaced.nil

/-- The statement splits a declaration with a line break in front of its braces. -/
theorem splits_brokenImport :
    brokenImport.Written brokenText ∧
      tagsImporter.ensure "a.ts".toList (brokenText ++ ";\nTags.fats;\n".toList) =
        "import React,\nimport \x7b Tags \x7d from \"../tags\";\n".toList ++
          "  \x7b useState \x7d from \"react\";\nTags.fats;\n".toList ∧
      ¬ brokenText <:+: tagsImporter.ensure "a.ts".toList (brokenText ++ ";\nTags.fats;\n".toList) := by
  have hensure : tagsImporter.ensure "a.ts".toList (brokenText ++ ";\nTags.fats;\n".toList) =
      "import React,\nimport \x7b Tags \x7d from \"../tags\";\n".toList ++
        "  \x7b useState \x7d from \"react\";\nTags.fats;\n".toList := by
    decide +kernel
  refine ⟨written_brokenImport, hensure, ?_⟩
  rw [hensure]
  decide +kernel

end Importer

end Constify
