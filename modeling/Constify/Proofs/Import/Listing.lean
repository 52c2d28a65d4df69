import Constify.Proofs.Import.Presence
import Constify.Proofs.Import.Reading
import Constify.Proofs.Import.Scan
import Constify.Proofs.Import.Syntax

/-!
# A list that binds the name

* `Listing name` : a declaration with a braced list, an entry of which binds the name; comments may stand in
  the list, but not in that entry;
* `Listing.clause?_text`, `Listing.mem_bindings` : the list is read and the entry found;
* `Importer.ensure_eq_of_listing` : a text with such a declaration is not changed;
* `Importer.misses_brokenEntry` : a line break in place of a space hides the entry.
-/

namespace Constify

open Declaration (quotedModule? clause? splitFrom?_append clause?_import)

/-- A declaration that starts with `import` and a braced list, an entry of which binds `name`. What stands in
front of that entry in the list ends with a comma, and what follows it starts with one. -/
structure Listing (name : Text) where
  before : Text
  lead : Text
  entry : Text
  trail : Text
  after : Text
  gap : Text
  gap' : Text
  source : Quoted
  entry_valid : Clause.Entry name entry
  lead_blank : Blanks lead
  trail_blank : Blanks trail
  before_ends : ∀ c ∈ before.getLast?, c = ','
  after_starts : ∀ c ∈ after.head?, c = ','
  others_unmarked : Unmarked (before ++ after)
  gap_blank : Blanks gap ∧ '\n' ∉ gap
  gap'_blank : Blanks gap' ∧ '\n' ∉ gap'

namespace Listing

variable {name : Text}

def list (d : Listing name) : Text := d.before ++ (d.lead ++ (d.entry ++ (d.trail ++ d.after)))

/-- The text up to the word `from`. -/
def front (d : Listing name) : Text := '{' :: (d.list ++ '}' :: d.gap)

def text (d : Listing name) : Text :=
  "import ".toList ++ (d.front ++ ("from".toList ++ (d.gap' ++ d.source.text)))

variable (d : Listing name) (hname : isIdentifier name = true)

include hname

theorem list_unmarked : Unmarked d.list := by
  have hothers := unmarked_append.mp d.others_unmarked
  have hentry := unmarked_of_forall fun _ hc => d.entry_valid.isIdentChar_or_isBlank hname hc
  simp only [list, unmarked_append]
  exact ⟨hothers.1, d.lead_blank.unmarked, hentry, d.trail_blank.unmarked, hothers.2⟩

theorem mem_bindings : name ∈ Clause.bindings ('{' :: (d.list ++ ['}'])) := by
  have hpart : d.entry ∈ Clause.parts (d.lead ++ (d.entry ++ d.trail)) := by
    have hcomma : ',' ∉ d.entry := fun h => absurd (d.entry_valid.isIdentChar_or_isBlank hname h) (by decide)
    rw [Clause.parts_of_trimmed d.lead_blank d.trail_blank (d.entry_valid.trimmed hname)
      (d.entry_valid.ne_nil hname) hcomma]
    exact List.mem_singleton_self d.entry
  have hmem : d.entry ∈ Clause.parts d.list := by
    have hlist : d.list = d.before ++ ((d.lead ++ (d.entry ++ d.trail)) ++ d.after) := by simp [list]
    rw [hlist]
    exact Clause.mem_parts_append_left d.before_ends (Clause.mem_parts_append_right d.after_starts hpart)
  have hbraced : Clause.braced? ('{' :: (d.list ++ ['}'])) = some ([], d.list, []) :=
    Clause.braced?_append (a := []) (by simp) (by simp)
  rw [Clause.bindings, hbraced]
  exact List.mem_append_right _
    (List.mem_filterMap.mpr ⟨d.entry, hmem, d.entry_valid.namedBinding? hname⟩)

theorem clause?_text (rest : Text) :
    ∃ source, clause? (d.text ++ rest) = some ('{' :: (d.list ++ ['}']), source) := by
  obtain ⟨source, hsource⟩ : ∃ source, quotedModule? (d.source.text ++ rest) = some source := by
    have hq : isQuote d.source.quote = true := by
      rcases d.source.quote_valid with h | h <;> rw [h] <;> rfl
    have hmem : d.source.quote ∈ d.source.module ++ [d.source.quote] ++ rest := by simp
    exact Declaration.exists_quotedModule? hq hmem hq
  have hfront : ∀ c ∈ d.front, isQuote c = false := by
    intro c hc
    simp only [front, List.mem_cons, List.mem_append] at hc
    rcases hc with rfl | hc | rfl | hc
    · rfl
    · exact (d.list_unmarked hname c hc).1
    · rfl
    · exact isQuote_of_isBlank (d.gap_blank.1 c hc)
  have hlast : ∀ c ∈ d.front.getLast?, isWord c = false := by
    have hclause : d.front = ('{' :: d.list) ++ '}' :: d.gap := rfl
    intro c hc
    rw [hclause, List.getLast?_append_cons] at hc
    rcases List.mem_cons.mp (List.mem_of_mem_getLast? hc) with rfl | hc
    · decide
    · exact isWord_of_isBlank (d.gap_blank.1 c hc)
  have hsplit : Declaration.splitFrom? (some ' ')
      (d.front ++ ("from".toList ++ (d.gap' ++ (d.source.text ++ rest)))) = some (d.front, source) :=
    splitFrom?_append (List.cons_ne_nil _ _) hfront hlast d.gap'_blank.1 hsource
  have htrim : Text.trimEnd d.front = '{' :: (d.list ++ ['}']) := by
    have hclause : d.front = ('{' :: d.list) ++ ['}'] ++ d.gap := by simp [front]
    have hbrace : isBlank '}' = false := by decide
    rw [hclause, Text.trimEnd_append d.gap_blank.1, Text.trimEnd_of_last
      (by rw [List.getLast?_concat]; simpa using hbrace), List.cons_append]
  have htext : d.text ++ rest =
      "import ".toList ++ (d.front ++ ("from".toList ++ (d.gap' ++ (d.source.text ++ rest)))) := by
    unfold text
    rw [List.append_assoc "import ".toList, List.append_assoc d.front, List.append_assoc "from".toList,
      List.append_assoc d.gap']
  have hblank : ∀ c ∈ (d.front ++ ("from".toList ++ (d.gap' ++ (d.source.text ++ rest)))).head?,
      isBlank c = false := by
    rintro c ⟨⟩
    decide
  refine ⟨source, ?_⟩
  rw [htext, clause?_import hblank fun r hr => ?_, hsplit, Option.map_some, htrim]
  cases (List.cons.inj hr).1

omit hname in
theorem exists_prefix : "import ".toList <+: d.text := List.prefix_append _ _

theorem braceBalance_pos {x y : Text} (h : d.text = x ++ '\n' :: y) : 0 < Declaration.braceBalance x := by
  have htail : '\n' ∉ d.gap ++ ("from".toList ++ (d.gap' ++ d.source.text)) := by
    have hfrom : '\n' ∉ "from".toList := by decide
    simp only [List.mem_append, not_or]
    exact ⟨d.gap_blank.2, hfrom, d.gap'_blank.2, Import.newline_not_mem_source d.source⟩
  have htext : "import ".toList ++ '{' :: (d.list ++ '}' :: (d.gap ++ ("from".toList ++
      (d.gap' ++ d.source.text)))) = x ++ '\n' :: y := by
    rw [← h]
    unfold text front
    rw [List.cons_append, List.append_assoc, List.cons_append]
  exact Declaration.braceBalance_pos_of_braced (by decide) (d.list_unmarked hname).not_close htail htext

end Listing

namespace Importer

open Text (StartsLine splitOn)

variable {i : Importer} {path rest : Text} {above : List Text}

/-- **A text with such a declaration is not changed.** The declaration starts a line, no declaration above
reaches that line, and if it has several lines, its braces are closed at the end of one. -/
theorem ensure_eq_of_listing (hid : isIdentifier i.identifier = true) (d : Listing i.identifier)
    (habove : ∀ l ∈ above, '\n' ∉ l)
    (hfree : ∀ e ∈ declarations (unlines above ++ (d.text ++ rest)),
      e.first < above.length → e.last < above.length)
    (hclosed : '\n' ∈ d.text → ClosesBraces d.text rest) :
    i.ensure path (unlines above ++ (d.text ++ rest)) = unlines above ++ (d.text ++ rest) := by
  have hstart : "import ".toList <+: d.text ++ rest := d.exists_prefix.trans (List.prefix_append _ _)
  obtain ⟨line, following, hlines, hline⟩ := Declaration.exists_splitOn_eq_of_prefix hstart
  have hcontent : splitOn '\n' (unlines above ++ (d.text ++ rest)) = above ++ line :: following := by
    rw [Text.splitOn_unlines_append habove, hlines]
  have hfree' : ∀ e ∈ Declaration.ofLines 0 (above ++ line :: following),
      e.first < 0 + above.length → e.last < 0 + above.length := by
    rw [← hcontent, Nat.zero_add]
    exact hfree
  have hmem := Declaration.ofText_mem_ofLines hline hfree'
  rw [← hcontent] at hmem
  obtain ⟨x, y, hxy, hy, hx, hread⟩ := Declaration.exists_count_eq_extraLines hlines
  have hle : d.text.count '\n' ≤ x.count '\n' := by
    by_cases hnewline : '\n' ∈ d.text
    · rw [hx, Declaration.count_le_extraLines_iff hlines hnewline]
      exact ⟨fun a b hab => d.braceBalance_pos hid hab, hclosed hnewline⟩
    · rw [List.count_eq_zero.mpr hnewline]
      exact Nat.zero_le _
  -- so the text that is read holds the whole declaration
  obtain ⟨z, rfl⟩ : ∃ z, x = d.text ++ z := by
    rcases Text.append_eq_append_of_startsLine hy hxy with ⟨hlt, -⟩ | ⟨-, z, hz, -⟩
    · omega
    · exact ⟨z, hz⟩
  rw [hread] at hmem
  obtain ⟨source, hclause⟩ := d.clause?_text hid z
  refine ensure_of_imports (Or.inr ⟨_, hmem, ?_⟩)
  rw [Declaration.ofText_of_clause? hclause]
  exact d.mem_bindings hid

/-- A list over several lines with comments, in which the name is an alias. -/
def catsListing : Listing "Tags".toList where
  before := "\n  a, /* b, */ c as d,".toList
  lead := "\n  ".toList
  entry := "type CATS\t as  Tags".toList
  trail := "\r\n".toList
  after := ", e // last\n".toList
  gap := " ".toList
  gap' := []
  source := .double "./cats".toList (by decide)
  entry_valid := by
    show Clause.Entry _ ("type ".toList ++ ([] ++ ("CATS".toList ++ (['\t'] ++ (" as ".toList ++
      ([' '] ++ "Tags".toList))))))
    exact .typed (by decide) (.renamed (by decide) (by decide) (by decide))
  lead_blank := by decide
  trail_blank := by decide
  before_ends := by decide
  after_starts := by decide
  others_unmarked := by decide
  gap_blank := by decide
  gap'_blank := by decide

theorem ensure_eq_of_listing_cats :
    tagsImporter.ensure "a.ts".toList
        (unlines ["import React from 'react';".toList] ++ (catsListing.text ++ ";\nTags.fats;\n".toList)) =
      unlines ["import React from 'react';".toList] ++ (catsListing.text ++ ";\nTags.fats;\n".toList) := by
  refine ensure_eq_of_listing (i := tagsImporter) (by decide) catsListing (by decide) (by decide +kernel)
    fun _ => ?_
  exact ⟨[';'], "\nTags.fats;\n".toList, rfl, by simp [StartsLine], by decide⟩

/-- An import with an alias. -/
def brokenEntry : Import where
  names? := some (false, .listed none [⟨false, ⟨"CATS".toList, by decide⟩, some ⟨"Tags".toList, by decide⟩⟩]
    false)
  source := .double "../cats".toList (by decide)

def brokenEntryText : Text := "import \x7b CATS as\n    Tags \x7d from \"../cats\"".toList

theorem written_brokenEntry : brokenEntry.Written brokenEntryText := by
  refine ⟨[] ++ (['{'] ++ ([' '] ++ ("CATS".toList ++ ([' '] ++ ("as".toList ++ ("\n    ".toList ++
    ("Tags".toList ++ ([' '] ++ (['}'] ++ ([' '] ++ ("from".toList ++ ([' '] ++
    ("\"../cats\"".toList ++ []))))))))))))), ?_, rfl⟩
  repeat refine Spaced.cons (by decide) ?_ (by decide)
  exact Spaced.nil

/-- A line break in place of the space behind `as` hides the name, and a second import of it is added. -/
theorem misses_brokenEntry :
    brokenEntry.Written brokenEntryText ∧ tagsImporter.identifier ∈ brokenEntry.bound ∧
      tagsImporter.ensure "a.ts".toList (brokenEntryText ++ ";\nTags.fats;\n".toList) =
        brokenEntryText ++ ";\nimport \x7b Tags \x7d from \"../tags\";\nTags.fats;\n".toList :=
  ⟨written_brokenEntry, by decide, by decide +kernel⟩

end Importer

end Constify
