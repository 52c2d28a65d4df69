import Constify.Proofs.Import.Insertion
import Constify.Proofs.Import.Scan

/-!
# The lines that declarations cover

* `Declaration.balanceThrough` : the running balance of braces over neighbouring lines;
* `Declaration.Spans lines d` : which lines one declaration takes;
* `Declaration.Covers lines n ds` : declarations below each other that take every line from number `n` on
  that starts with `import` and a space;
* `Declaration.Covers.skip`, `Declaration.Covers.cons` : what a step of the scan keeps;
* `Declaration.covers_ofLines` : what the whole scan gives;
* `declarations_cover` : so an import goes below a line of the text.
-/

namespace Constify

namespace Declaration

variable {lines : List Text} {n : Nat} {d : Declaration} {ds : List Declaration}

/-! ## Running balances -/

/-- How many more braces are opened than closed in the lines from number `first` to number `last`. -/
def balanceThrough (lines : List Text) (first last : Nat) : Int :=
  (((lines.drop first).take (last + 1 - first)).map braceBalance).sum

theorem sum_map_braceBalance (lines : List Text) :
    (lines.map braceBalance).sum = braceBalance lines.flatten := by
  induction lines with
  | nil => rfl
  | cons line lines ih => rw [List.map_cons, List.sum_cons, ih, List.flatten_cons, braceBalance_append]

theorem balanceThrough_add {line : Text} {following : List Text} (h : lines.drop n = line :: following)
    (k : Nat) :
    balanceThrough lines n (n + k) = braceBalance line + braceBalance (following.take k).flatten := by
  have hlength : n + k + 1 - n = k + 1 := by omega
  rw [balanceThrough, h, hlength, List.take_succ_cons, List.map_cons, List.sum_cons, sum_map_braceBalance]

/-- The scan for the closing brace ends at the first line after which the balance is down, or where it
started if there is no such line. -/
theorem extraLines_cases (line : Text) (following : List Text) :
    (braceBalance line + braceBalance (following.take (extraLines line following)).flatten ≤ 0 ∧
        ∀ k < extraLines line following, 0 < braceBalance line + braceBalance (following.take k).flatten) ∨
      (extraLines line following = 0 ∧
        ∀ k ≤ following.length, 0 < braceBalance line + braceBalance (following.take k).flatten) := by
  cases h : linesToClose? (braceBalance line) following with
  | none => exact Or.inr ⟨by rw [extraLines, h, Option.getD_none], linesToClose?_eq_none_iff.mp h⟩
  | some k =>
    obtain ⟨-, hdown, hup⟩ := linesToClose?_eq_some_iff.mp h
    have hextra : extraLines line following = k := by rw [extraLines, h, Option.getD_some]
    rw [hextra]
    exact Or.inl ⟨hdown, hup⟩

/-! ## One declaration -/

/-- Which lines a declaration takes. It starts at a line that starts with `import` and a space. If it has
several lines, then its braces are open after each of them but the last, and closed after that. It has one
line only if its braces are closed after that line or never. -/
structure Spans (lines : List Text) (d : Declaration) : Prop where
  first_le_last : d.first ≤ d.last
  last_lt : d.last < lines.length
  starts : ∃ line, lines[d.first]? = some line ∧ "import ".toList <+: line
  isOpen : ∀ k, d.first ≤ k → k < d.last → 0 < balanceThrough lines d.first k
  isClosed : d.first < d.last → balanceThrough lines d.first d.last ≤ 0
  one_line_iff : d.last = d.first ↔ balanceThrough lines d.first d.first ≤ 0 ∨
    ∀ k, d.first ≤ k → k < lines.length → 0 < balanceThrough lines d.first k

theorem spans_ofText {line : Text} {following : List Text} (h : lines.drop n = line :: following)
    (hstart : isStart line = true) (t : Text) :
    Spans lines (ofText n (n + extraLines line following) t) := by
  have hlength : lines.length = n + following.length + 1 := by
    have := congrArg List.length h
    rw [List.length_drop, List.length_cons] at this
    omega
  have hle := extraLines_le line following
  have hbalance := balanceThrough_add h
  have hfirst := hbalance 0
  rw [Nat.add_zero] at hfirst
  have hcases := extraLines_cases line following
  simp only [← hbalance] at hcases
  generalize extraLines line following = extra at hle hcases
  constructor
  case starts =>
    refine ⟨line, ?_, List.isPrefixOf_iff_prefix.mp hstart⟩
    have hget : (lines.drop n)[0]? = lines[n + 0]? := List.getElem?_drop
    rw [h, Nat.add_zero] at hget
    rw [first_ofText, ← hget, List.getElem?_cons_zero]
  all_goals simp only [first_ofText, last_ofText]
  case first_le_last => omega
  case last_lt => omega
  case isOpen =>
    intro k hnk hk
    obtain ⟨j, rfl⟩ := Nat.exists_eq_add_of_le hnk
    rcases hcases with ⟨-, hup⟩ | ⟨hzero, -⟩
    · exact hup j (by omega)
    · omega
  case isClosed =>
    intro hlt
    rcases hcases with ⟨hdown, -⟩ | ⟨hzero, -⟩
    · exact hdown
    · omega
  case one_line_iff =>
    constructor
    · intro hone
      obtain rfl : extra = 0 := by omega
      rcases hcases with ⟨hdown, -⟩ | ⟨-, hup⟩
      · exact Or.inl hdown
      · refine Or.inr fun k hnk hk => ?_
        obtain ⟨j, rfl⟩ := Nat.exists_eq_add_of_le hnk
        exact hup j (by omega)
    · rintro (hdown | hup)
      · rcases hcases with ⟨-, hopen⟩ | ⟨hzero, -⟩
        · by_contra hne
          have := hopen 0 (by omega)
          rw [Nat.add_zero] at this
          omega
        · omega
      · rcases hcases with ⟨hdown, -⟩ | ⟨hzero, -⟩
        · have := hup (n + extra) (by omega) (by omega)
          omega
        · omega

/-! ## All declarations -/

/-- Declarations that stand below each other, from line `n` on, and take every line from there on that starts
with `import` and a space. -/
structure Covers (lines : List Text) (n : Nat) (ds : List Declaration) : Prop where
  spans : ∀ d ∈ ds, Spans lines d
  le_first : ∀ d ∈ ds, n ≤ d.first
  apart : ds.Pairwise fun d e => d.last < e.first
  covered : ∀ k line, n ≤ k → lines[k]? = some line → "import ".toList <+: line →
    ∃ d ∈ ds, d.first ≤ k ∧ k ≤ d.last

namespace Covers

theorem of_length_le (h : lines.length ≤ n) : Covers lines n [] where
  spans := by simp
  le_first := by simp
  apart := .nil
  covered k line hk hline := by
    have := (List.getElem?_eq_some_iff.mp hline).1
    omega

theorem skip {line : Text} (h : Covers lines (n + 1) ds) (hline : lines[n]? = some line)
    (hstart : isStart line = false) : Covers lines n ds where
  spans := h.spans
  le_first d hd := (Nat.le_succ n).trans (h.le_first d hd)
  apart := h.apart
  covered k line' hk hline' hprefix := by
    rcases Nat.eq_or_lt_of_le hk with rfl | hlt
    · obtain rfl : line = line' := Option.some.inj (hline.symm.trans hline')
      rw [isStart, List.isPrefixOf_iff_prefix.mpr hprefix] at hstart
      cases hstart
    · exact h.covered k line' hlt hline' hprefix

theorem cons (h : Covers lines (d.last + 1) ds) (hd : Spans lines d) : Covers lines d.first (d :: ds) where
  spans := List.forall_mem_cons.mpr ⟨hd, h.spans⟩
  le_first := List.forall_mem_cons.mpr ⟨le_rfl, fun e he => by
    have := h.le_first e he
    have := hd.first_le_last
    omega⟩
  apart := List.pairwise_cons.mpr ⟨h.le_first, h.apart⟩
  covered k line hk hline hprefix := by
    by_cases hlast : k ≤ d.last
    · exact ⟨d, List.mem_cons_self, hk, hlast⟩
    · obtain ⟨e, he, hek⟩ := h.covered k line (by omega) hline hprefix
      exact ⟨e, List.mem_cons_of_mem d he, hek⟩

end Covers

theorem covers_ofLines (lines : List Text) (n : Nat) : Covers lines n (ofLines n (lines.drop n)) := by
  induction hk : lines.length - n using Nat.strongRecOn generalizing n with
  | ind k ih =>
    cases hdrop : lines.drop n with
    | nil =>
      rw [ofLines_nil]
      exact Covers.of_length_le (List.drop_eq_nil_iff.mp hdrop)
    | cons line following =>
      have hlt : n < lines.length := by
        by_contra hle
        rw [List.drop_eq_nil_of_le (by omega)] at hdrop
        cases hdrop
      -- what is left behind the line, and behind its declaration
      have hrest : ∀ j, lines.drop (n + 1 + j) = following.drop j := by
        intro j
        rw [Nat.add_assoc, ← List.drop_drop, hdrop, Nat.add_comm 1, List.drop_succ_cons]
      cases hstart : isStart line with
      | false =>
        rw [ofLines_cons_of_not_start hstart]
        have hline : lines[n]? = some line := by
          rw [List.drop_eq_getElem_cons hlt] at hdrop
          rw [List.getElem?_eq_getElem hlt, (List.cons.inj hdrop).1]
        have := ih (lines.length - (n + 1)) (by omega) (n + 1) rfl
        rw [← Nat.add_zero (n + 1), hrest, List.drop_zero, Nat.add_zero] at this
        exact this.skip hline hstart
      | true =>
        rw [ofLines_cons hstart]
        have hspans := spans_ofText hdrop hstart
          (['\n'].intercalate (line :: following.take (extraLines line following)))
        have hbelow := ih (lines.length - (n + extraLines line following + 1)) (by omega)
          (n + extraLines line following + 1) rfl
        rw [Nat.add_right_comm, hrest] at hbelow
        rw [Nat.add_right_comm]
        have := Covers.cons (d := ofText n (n + extraLines line following) _) (by
          rw [last_ofText, Nat.add_right_comm]
          exact hbelow) hspans
        rwa [first_ofText] at this

end Declaration

open Declaration (Covers covers_ofLines)

/-- **Which lines declarations take.** The declarations of a text stand below each other, take every line that
starts with `import` and a space, and end where their braces are closed; so the line below which an import
is put is a line of the text. -/
theorem declarations_cover (content : Text) :
    Covers (Text.splitOn '\n' content) 0 (declarations content) ∧
      ∀ d ∈ (declarations content).head?, ∃ h : d.last < (Text.splitOn '\n' content).length,
        ∀ (i : Importer) (path : Text), i.insert path content =
          ['\n'].intercalate ((Text.splitOn '\n' content).take (d.last + 1) ++
            (i.statement path ++ Importer.lineReturn (Text.splitOn '\n' content)[d.last]) ::
              (Text.splitOn '\n' content).drop (d.last + 1)) := by
  have hcovers := covers_ofLines (Text.splitOn '\n' content) 0
  rw [List.drop_zero] at hcovers
  refine ⟨hcovers, fun d hd => ?_⟩
  obtain ⟨ds, hds⟩ := List.head?_eq_some_iff.mp hd
  have hlt : d.last < (Text.splitOn '\n' content).length := by
    refine (hcovers.spans d ?_).last_lt
    show d ∈ declarations content
    rw [hds]
    exact List.mem_cons_self
  refine ⟨hlt, fun i path => ?_⟩
  rw [Importer.insert, hds]
  dsimp only
  rw [List.getD_eq_getElem?_getD, List.getElem?_eq_getElem hlt, Option.getD_some]

def openImports : Text := "import \x7b a\nimport \x7b\n  b\n\x7d from 'b'\nimport 'c'\n".toList

/-- The lines below the open brace are looked at again, and an import goes between them and that line. -/
theorem declarations_cover_openImports :
    (declarations openImports).map (fun d => (d.first, d.last)) = [(0, 0), (1, 3), (4, 4)] ∧
      (declarations openImports).head? = some ⟨0, 0, [], none⟩ ∧
      Covers (Text.splitOn '\n' openImports) 0 (declarations openImports) ∧
      ∃ h : 0 < (Text.splitOn '\n' openImports).length,
        ∀ (i : Importer) (path : Text), i.insert path openImports =
          ['\n'].intercalate ((Text.splitOn '\n' openImports).take (0 + 1) ++
            (i.statement path ++ Importer.lineReturn (Text.splitOn '\n' openImports)[0]) ::
              (Text.splitOn '\n' openImports).drop (0 + 1)) := by
  have hhead : (declarations openImports).head? = some ⟨0, 0, [], none⟩ := by decide +kernel
  obtain ⟨hcovers, hinsert⟩ := declarations_cover openImports
  exact ⟨by decide +kernel, hhead, hcovers, hinsert _ hhead⟩

end Constify
