import Constify.Patch.Alignment
import Constify.Text.Lines

/-!
# Patches

* `Hunk` : a run of removed lines and the lines put in their place;
* `hunks` : the hunks between two lists of lines;
* `patchText` : the patch between two texts, in the unified format without context lines.
-/

namespace Constify

/-- A run of changes: how many old and how many new lines lie before it, the lines removed and the
lines added. -/
structure Hunk where
  oldStart : Nat
  newStart : Nat
  removed : List Text
  added : List Text
  deriving DecidableEq, Repr

def commonLength {α : Type} [DecidableEq α] : List α → List α → Nat
  | a :: as, b :: bs => if a = b then commonLength as bs + 1 else 0
  | _, _ => 0

namespace Hunk

/-- The hunks that steps make, where `o` old and `n` new lines lie behind. -/
def ofSteps (o n : Nat) (steps : List Step) (old new : List Text) : List Hunk :=
  match steps with
  | [] => []
  | .keep :: rest => ofSteps (o + 1) (n + 1) rest (old.drop 1) (new.drop 1)
  | step :: rest =>
    let run := step :: rest.takeWhile (· != .keep)
    let r := run.count .remove
    let a := run.count .add
    ⟨o, n, old.take r, new.take a⟩ ::
      ofSteps (o + r) (n + a) (rest.dropWhile (· != .keep)) (old.drop r) (new.drop a)
termination_by steps.length
decreasing_by
  · exact Nat.lt_succ_self _
  · exact Nat.lt_succ_of_le (List.dropWhile_suffix _).length_le

/-- The lines that a hunk covers: first line and count, the count left out if it is one. A range
without lines names the line before it. -/
def rangeText (start count : Nat) : Text :=
  match count with
  | 0 => Text.ofNat start ++ ",0".toList
  | 1 => Text.ofNat (start + 1)
  | n => Text.ofNat (start + 1) ++ ',' :: Text.ofNat n

def lineText (mark : Char) (line : Text) : Text := mark :: line ++ ['\n']

def text (h : Hunk) : Text :=
  "@@ -".toList ++ rangeText h.oldStart h.removed.length ++ " +".toList ++
    rangeText h.newStart h.added.length ++ " @@\n".toList ++
    h.removed.flatMap (lineText '-') ++ h.added.flatMap (lineText '+')

end Hunk

/-- The hunks that turn the old lines into the new ones. The lines that both have at the front and
at the end are left out of the alignment. -/
def hunks (old new : List Text) : List Hunk :=
  let front := commonLength old new
  let old := old.drop front
  let new := new.drop front
  let back := commonLength old.reverse new.reverse
  let old := old.take (old.length - back)
  let new := new.take (new.length - back)
  Hunk.ofSteps front front (alignment old new) old new

/-- The lines of a patch that name the file. -/
def patchHeader (path : Text) : Text :=
  "--- a/".toList ++ path ++ "\n+++ b/".toList ++ path ++ ['\n']

/-- The patch that turns the text `before` of the file at the path into `after`, empty if the two
are equal. Lines are compared without their terminators. -/
def patchText (path before after : Text) : Text :=
  if before = after then []
  else patchHeader path ++ (hunks before.lines after.lines).flatMap Hunk.text

end Constify
