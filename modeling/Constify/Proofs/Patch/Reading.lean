import Constify.Proofs.Patch.Order
import Constify.Proofs.Text.Split

/-!
# Reading patches

A patch in the unified format has two lines that name the files. Then come the hunks: a line
`@@ -a,b +c,d @@` and as many removed and added lines as it says, each behind its mark. A count that is
left out is one, and a range without lines names the line before it.

* `Text.number?`, `Text.terminated?` : the number of a text of digits, the lines of a text whose last line
  is ended too;
* `Patch.range?`, `Patch.marked?`, `Patch.hunks?` : the parts of a patch;
* `Patch.read?` : reads a patch;
* `hunks?_flatMap` : hunks are read back from their lines, whatever these hold;
* `exists_read_patchText` : the patch between two texts is read back, in order, and leads from either text to
  the other.
-/

namespace Constify

/-! ## Numbers and lines -/

namespace Text

/-- The number that decimal digits stand for. -/
def number? (t : Text) : Option Nat :=
  if t ≠ [] ∧ t.all Char.isDigit = true then some (Nat.ofDigitChars 10 t 0) else none

/-- The lines of a text, each of which is ended by a line feed. -/
def terminated? (t : Text) : Option (List Text) :=
  let pieces := splitOn '\n' t
  if pieces.getLast? = some [] then some pieces.dropLast else none

theorem isDigit_of_mem_ofNat {n : Nat} {c : Char} (h : c ∈ ofNat n) : c.isDigit = true :=
  Nat.isDigit_of_mem_toDigits (by decide) (by decide) h

theorem not_mem_ofNat {c : Char} (hc : c.isDigit = false) (n : Nat) : c ∉ ofNat n := by
  intro h
  rw [isDigit_of_mem_ofNat h] at hc
  cases hc

theorem number?_ofNat (n : Nat) : number? (ofNat n) = some n := by
  have hall : (ofNat n).all Char.isDigit = true :=
    List.all_eq_true.mpr fun c hc => isDigit_of_mem_ofNat hc
  rw [number?, if_pos ⟨Nat.toDigits_ne_nil, hall⟩, ofNat,
    Nat.ofDigitChars_toDigits (by decide) (by decide)]

theorem splitOn_flatMap {lines : List Text} (h : ∀ line ∈ lines, '\n' ∉ line) :
    splitOn '\n' (lines.flatMap (· ++ ['\n'])) = lines ++ [[]] := by
  induction lines with
  | nil => rfl
  | cons line lines ih =>
    rw [List.flatMap_cons, List.append_assoc, List.singleton_append, splitOn_append_cons,
      splitOn_of_not_mem (h line (by simp)), ih fun l hl => h l (List.mem_cons_of_mem _ hl)]
    rfl

theorem terminated?_flatMap {lines : List Text} (h : ∀ line ∈ lines, '\n' ∉ line) :
    terminated? (lines.flatMap (· ++ ['\n'])) = some lines := by
  rw [terminated?, splitOn_flatMap h, List.getLast?_concat, if_pos rfl, List.dropLast_concat]

theorem newline_not_mem_lines {t line : Text} (h : line ∈ t.lines) : '\n' ∉ line := by
  unfold lines at h
  dsimp only at h
  rcases List.mem_append.mp h with h | h
  · obtain ⟨piece, hpiece, rfl⟩ := List.mem_map.mp h
    have hmem := not_mem_of_mem_splitOn (List.mem_of_mem_dropLast hpiece)
    unfold stripReturn
    split
    · exact fun hc => hmem (List.mem_of_mem_dropLast hc)
    · exact hmem
  · split at h
    · cases h
    · rw [List.mem_singleton] at h
      have hmem : line ∈ splitOn '\n' t := by
        rw [h, List.getLastD_eq_getLast?, List.getLast?_eq_some_getLast (splitOn_ne_nil '\n' t)]
        exact List.getLast_mem _
      exact not_mem_of_mem_splitOn hmem

end Text

/-! ## The reader -/

/-- A patch as it was read: the two paths and the hunks. -/
structure Patch where
  oldPath : Text
  newPath : Text
  hunks : List Hunk
  deriving DecidableEq, Repr

namespace Patch

/-- How many lines lie before a range with the given number of lines: the lines are counted from one, and
a range without lines names the line before it. -/
def before? : (first count : Nat) → Option Nat
  | first, 0 => some first
  | 0, _ + 1 => none
  | first + 1, _ + 1 => some first

/-- How many lines lie before a range and how many it covers, one if it does not say. -/
def range? (t : Text) : Option (Nat × Nat) :=
  match Text.splitOn ',' t with
  | [first] => do
    let first ← Text.number? first
    return (← before? first 1, 1)
  | [first, count] => do
    let first ← Text.number? first
    let count ← Text.number? count
    return (← before? first count, count)
  | _ => none

/-- The old and the new range of a line `@@ -old +new @@`. -/
def header? (line : Text) : Option ((Nat × Nat) × (Nat × Nat)) :=
  match Text.splitOn ' ' line with
  | [['@', '@'], '-' :: old, '+' :: new, ['@', '@']] => do return (← range? old, ← range? new)
  | _ => none

/-- The texts of the first `count` lines, each of which has the mark. -/
def marked? (mark : Char) : (count : Nat) → List Text → Option (List Text)
  | 0, _ => some []
  | count + 1, (c :: line) :: lines =>
    if c = mark then (marked? mark count lines).map (line :: ·) else none
  | _ + 1, _ => none

/-- The hunks that lines make. The ranges alone tell where a hunk ends. -/
def hunks? : List Text → Option (List Hunk)
  | [] => some []
  | line :: lines =>
    match header? line with
    | none => none
    | some ((o, r), (n, a)) =>
      match marked? '-' r lines, marked? '+' a (lines.drop r) with
      | some removed, some added => (hunks? (lines.drop (r + a))).map (⟨o, n, removed, added⟩ :: ·)
      | _, _ => none
termination_by lines => lines.length
decreasing_by exact Nat.lt_succ_of_le (List.drop_suffix ..).length_le

def read? (t : Text) : Option Patch := do
  match ← Text.terminated? t with
  | old :: new :: rest =>
    return ⟨← Text.after? "--- a/".toList old, ← Text.after? "+++ b/".toList new, ← hunks? rest⟩
  | _ => none

end Patch

/-! ## The lines of a hunk -/

namespace Hunk

def header (h : Hunk) : Text :=
  ['@', '@', ' ', '-'] ++ rangeText h.oldStart h.removed.length ++ [' ', '+'] ++
    rangeText h.newStart h.added.length ++ [' ', '@', '@']

def patchLines (h : Hunk) : List Text :=
  h.header :: (h.removed.map ('-' :: ·) ++ h.added.map ('+' :: ·))

theorem text_eq (h : Hunk) : h.text = h.patchLines.flatMap (· ++ ['\n']) := by
  have hopen : "@@ -".toList = ['@', '@', ' ', '-'] := by decide
  have hmiddle : " +".toList = [' ', '+'] := by decide
  have hclose : " @@\n".toList = [' ', '@', '@'] ++ ['\n'] := by decide
  unfold text patchLines header
  rw [hopen, hmiddle, hclose, List.flatMap_cons, List.flatMap_append, List.flatMap_map,
    List.flatMap_map]
  simp only [List.append_assoc]
  rfl

theorem not_mem_rangeText {c : Char} (hc : c.isDigit = false) (hcomma : c ≠ ',') (start count : Nat) :
    c ∉ rangeText start count := by
  unfold rangeText
  split
  · rw [List.mem_append, not_or]
    refine ⟨Text.not_mem_ofNat hc _, fun h => ?_⟩
    change c ∈ [',', '0'] at h
    simp only [List.mem_cons, List.not_mem_nil, or_false] at h
    rcases h with rfl | rfl
    · exact hcomma rfl
    · cases hc
  · exact Text.not_mem_ofNat hc _
  · rw [List.mem_append, List.mem_cons, not_or, not_or]
    exact ⟨Text.not_mem_ofNat hc _, hcomma, Text.not_mem_ofNat hc _⟩

theorem newline_not_mem_header (h : Hunk) : '\n' ∉ h.header := by
  unfold header
  simp only [List.mem_append, not_or]
  exact ⟨⟨⟨⟨by decide, not_mem_rangeText (by decide) (by decide) _ _⟩, by decide⟩,
    not_mem_rangeText (by decide) (by decide) _ _⟩, by decide⟩

theorem newline_not_mem_patchLines {h : Hunk} (hold : ∀ line ∈ h.removed, '\n' ∉ line)
    (hnew : ∀ line ∈ h.added, '\n' ∉ line) {line : Text} (hline : line ∈ h.patchLines) :
    '\n' ∉ line := by
  rcases List.mem_cons.mp hline with rfl | hline
  · exact h.newline_not_mem_header
  rcases List.mem_append.mp hline with hline | hline <;>
    obtain ⟨text, htext, rfl⟩ := List.mem_map.mp hline
  · simpa using hold text htext
  · simpa using hnew text htext

end Hunk

/-! ## Reading back -/

namespace Patch

theorem comma_not_mem_ofNat (n : Nat) : ',' ∉ Text.ofNat n := Text.not_mem_ofNat (by decide) n

theorem range?_ofNat_comma (first count : Nat) :
    range? (Text.ofNat first ++ ',' :: Text.ofNat count) =
      (before? first count).map fun start => (start, count) := by
  rw [range?, Text.splitOn_append_cons, Text.splitOn_of_not_mem (comma_not_mem_ofNat first),
    Text.splitOn_of_not_mem (comma_not_mem_ofNat count)]
  simp only [List.cons_append, List.nil_append, Text.number?_ofNat, Option.bind_eq_bind,
    Option.bind_some]
  cases before? first count <;> rfl

theorem range?_rangeText (start count : Nat) :
    range? (Hunk.rangeText start count) = some (start, count) := by
  unfold Hunk.rangeText
  split
  · have hzero : ",0".toList = ',' :: Text.ofNat 0 := by decide
    rw [hzero, range?_ofNat_comma]
    rfl
  · rw [range?, Text.splitOn_of_not_mem (comma_not_mem_ofNat _)]
    simp only [Text.number?_ofNat]
    rfl
  · next n hzero hone =>
    obtain ⟨k, rfl⟩ := Nat.exists_eq_succ_of_ne_zero hzero
    rw [range?_ofNat_comma]
    rfl

example : range? ['7'] = some (6, 1) ∧ range? ['7', ',', '0'] = some (7, 0) := by decide

theorem header?_header (h : Hunk) :
    header? h.header = some ((h.oldStart, h.removed.length), (h.newStart, h.added.length)) := by
  have hblank : ∀ start count, ' ' ∉ Hunk.rangeText start count :=
    Hunk.not_mem_rangeText (by decide) (by decide)
  have hsplit : Text.splitOn ' ' h.header =
      [['@', '@'], '-' :: Hunk.rangeText h.oldStart h.removed.length,
        '+' :: Hunk.rangeText h.newStart h.added.length, ['@', '@']] := by
    have hheader : h.header = [' '].intercalate
        [['@', '@'], '-' :: Hunk.rangeText h.oldStart h.removed.length,
          '+' :: Hunk.rangeText h.newStart h.added.length, ['@', '@']] := by
      simp [Hunk.header, List.intercalate_cons_cons]
    rw [hheader]
    refine Text.splitOn_intercalate (by simp) fun g hg => ?_
    simp only [List.mem_cons, List.not_mem_nil, or_false] at hg
    rcases hg with rfl | rfl | rfl | rfl <;> simp [hblank]
  rw [header?, hsplit]
  simp only [range?_rangeText]
  rfl

theorem marked?_map_append (mark : Char) (texts rest : List Text) :
    marked? mark texts.length (texts.map (mark :: ·) ++ rest) = some texts := by
  induction texts with
  | nil => rfl
  | cons text texts ih =>
    rw [List.length_cons, List.map_cons, List.cons_append, marked?, if_pos rfl, ih]
    rfl

/-- Hunks are read back from their lines, whatever these hold. -/
theorem hunks?_flatMap (hs : List Hunk) : hunks? (hs.flatMap Hunk.patchLines) = some hs := by
  induction hs with
  | nil => simp [hunks?]
  | cons h hs ih =>
    have hremoved : (h.removed.map ('-' :: ·)).length = h.removed.length := List.length_map _
    have hadded : (h.added.map ('+' :: ·)).length = h.added.length := List.length_map _
    rw [List.flatMap_cons, Hunk.patchLines, List.cons_append, hunks?, header?_header, List.append_assoc]
    dsimp only
    rw [marked?_map_append, List.drop_left' hremoved, marked?_map_append, ← List.drop_drop,
      List.drop_left' hremoved, List.drop_left' hadded, ih]
    rfl

end Patch

/-! ## The patch between two texts -/

theorem patchText_eq {before after : Text} (h : before ≠ after) (path : Text) :
    patchText path before after =
      (("--- a/".toList ++ path) :: ("+++ b/".toList ++ path) ::
        (hunks before.lines after.lines).flatMap Hunk.patchLines).flatMap (· ++ ['\n']) := by
  have hnew : "\n+++ b/".toList = '\n' :: "+++ b/".toList := by decide
  rw [patchText, if_neg h]
  unfold patchHeader
  rw [hnew, List.flatMap_cons, List.flatMap_cons, List.flatMap_assoc]
  simp only [← Hunk.text_eq, List.append_assoc, List.cons_append, List.nil_append]

/-- **The patch is read back and leads from either text to the other.** -/
theorem exists_read_patchText {path before after : Text} (hpath : '\n' ∉ path) (h : before ≠ after) :
    ∃ hs, Patch.read? (patchText path before after) = some ⟨path, path, hs⟩ ∧
      hs.Pairwise Hunk.Before ∧ Hunk.applyFrom 0 0 hs before.lines = some after.lines ∧
      Hunk.applyFrom 0 0 (hs.map Hunk.reverse) after.lines = some before.lines := by
  have happly := apply_hunks before.lines after.lines
  refine ⟨hunks before.lines after.lines, ?_, pairwise_hunks _ _, happly,
    Hunk.applyFrom_reverse happly⟩
  have hlines : ∀ line ∈ ("--- a/".toList ++ path) :: ("+++ b/".toList ++ path) ::
      (hunks before.lines after.lines).flatMap Hunk.patchLines, '\n' ∉ line := by
    intro line hline
    rcases List.mem_cons.mp hline with rfl | hline
    · rw [List.mem_append, not_or]
      exact ⟨by decide, hpath⟩
    rcases List.mem_cons.mp hline with rfl | hline
    · rw [List.mem_append, not_or]
      exact ⟨by decide, hpath⟩
    · obtain ⟨k, hk, hline⟩ := List.mem_flatMap.mp hline
      obtain ⟨hold, hnew⟩ := Hunk.mem_of_applyFrom happly hk
      exact Hunk.newline_not_mem_patchLines
        (fun l hl => Text.newline_not_mem_lines (hold l hl))
        (fun l hl => Text.newline_not_mem_lines (hnew l hl)) hline
  rw [patchText_eq h, Patch.read?, Text.terminated?_flatMap hlines]
  have holdPath := Text.after?_eq_some_iff.mpr (rfl : "--- a/".toList ++ path = _)
  have hnewPath := Text.after?_eq_some_iff.mpr (rfl : "+++ b/".toList ++ path = _)
  simp only [Option.bind_eq_bind, Option.bind_some, holdPath, hnewPath, Patch.hunks?_flatMap]
  rfl

/-- A text whose lines look like those of a patch. -/
def markedText : Text := "@@ -1 +1 @@\n-x\n+y\n".toList

/-- Between that text and the same lines behind a line `--- a/x`, without the last line end. -/
theorem exists_read_patchText_marks :
    '\n' ∉ ['a'] ∧ markedText ≠ "--- a/x\n".toList ++ markedText.dropLast ∧
      ∃ hs, Patch.read? (patchText ['a'] markedText ("--- a/x\n".toList ++ markedText.dropLast)) =
          some ⟨['a'], ['a'], hs⟩ ∧
        hs.Pairwise Hunk.Before ∧
        Hunk.applyFrom 0 0 hs (Text.lines markedText) =
          some (Text.lines ("--- a/x\n".toList ++ markedText.dropLast)) ∧
        Hunk.applyFrom 0 0 (hs.map Hunk.reverse)
            (Text.lines ("--- a/x\n".toList ++ markedText.dropLast)) =
          some (Text.lines markedText) :=
  ⟨by decide, by decide, exists_read_patchText (by decide) (by decide)⟩

end Constify
