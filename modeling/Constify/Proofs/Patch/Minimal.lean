import Constify.Proofs.Patch.Reading
import Constify.Proofs.Patch.Subsequence

/-!
# Patches are as short as they can be

* `Script.count_keep_add` : a script keeps and changes each line once;
* `Hunk.size` : the number of lines of a hunk (`Hunk.sum_size_ofSteps`, `Hunk.size_pos_of_mem_ofSteps`);
* `sum_size_hunks` : the hunks between two lists leave out a longest common subsequence;
* `Hunk.Separated` : between two hunks both lists have the same lines, at least one;
* `Patch.changedLines` : the lines of a text of hunks that remove or add a line;
* `patchText_minimal` : the patch between two texts is as short as it can be, and well shaped.
-/

namespace Constify

/-! ## Counting steps -/

namespace Script

variable {α : Type} {steps : List Step} {old new : List α}

theorem count_keep_add (h : Script steps old new) :
    steps.count .keep + steps.count .remove = old.length ∧
      steps.count .keep + steps.count .add = new.length := by
  induction h with
  | nil => exact ⟨rfl, rfl⟩
  | keep a h ih | remove a h ih | add a h ih =>
    simp only [List.count_cons, List.length_cons, beq_iff_eq, reduceCtorEq, if_true, if_false]
    omega

end Script

/-! ## The sizes of hunks -/

namespace Hunk

variable {steps : List Step} {old new : List Text} {h k : Hunk} {o n : Nat}

/-- The number of lines that a hunk removes or adds. -/
def size (h : Hunk) : Nat := h.removed.length + h.added.length

theorem sum_size_ofSteps (h : Script steps old new) (o n : Nat) :
    ((ofSteps o n steps old new).map size).sum = steps.count .remove + steps.count .add := by
  refine ofSteps_induction
    (motive := fun _ _ steps _ _ hs => (hs.map size).sum = steps.count .remove + steps.count .add)
    (fun _ _ => rfl) (fun _ _ steps _ _ hs _ ih => ?_) ?_ h o n
  · rw [ih, List.count_cons_of_ne (by decide), List.count_cons_of_ne (by decide)]
  · intro o n run steps old new hs as bs _ _ has hbs ih
    rw [List.map_cons, List.sum_cons, ih, List.count_append, List.count_append, size, ← has, ← hbs]
    dsimp only
    omega

theorem count_pos_of_ne_keep {run : List Step} (hrun : run ≠ []) (hkeep : ∀ s ∈ run, s ≠ Step.keep) :
    0 < run.count .remove + run.count .add := by
  obtain ⟨s, rest, rfl⟩ := List.exists_cons_of_ne_nil hrun
  cases s with
  | keep => exact absurd rfl (hkeep .keep (by simp))
  | remove => exact Nat.add_pos_left (List.count_pos_iff.mpr (by simp)) _
  | add => exact Nat.add_pos_right _ (List.count_pos_iff.mpr (by simp))

/-- No hunk is empty. -/
theorem size_pos_of_mem_ofSteps (h : Script steps old new) (hk : k ∈ ofSteps o n steps old new) :
    0 < k.size := by
  refine ofSteps_induction (motive := fun _ _ _ _ _ hs => ∀ k ∈ hs, 0 < size k)
    (fun _ _ k hk => nomatch hk) (fun _ _ _ _ _ _ _ ih => ih) ?_ h o n k hk
  intro o n run steps old new hs as bs hrun hkeep has hbs ih k hk
  rcases List.mem_cons.mp hk with rfl | hk
  · rw [size, has, hbs]
    exact count_pos_of_ne_keep hrun hkeep
  · exact ih k hk

/-! ## Between two hunks -/

/-- Between the end of `h` and the start of `k` both lists have the same lines, at least one. -/
def Separated (old new : List Text) (h k : Hunk) : Prop :=
  ∃ same, same ≠ [] ∧ k.oldStart = h.oldStart + h.removed.length + same.length ∧
    k.newStart = h.newStart + h.added.length + same.length ∧
    same <+: old.drop (h.oldStart + h.removed.length) ∧ same <+: new.drop (h.newStart + h.added.length)

theorem isChain_separated {hs : List Hunk} {rest rest' : List Text} (hbefore : hs.Pairwise Before)
    (hrest : old.drop o = rest) (hrest' : new.drop n = rest')
    (happly : applyFrom o n hs rest = some rest') : hs.IsChain (Separated old new) := by
  induction hs generalizing o n rest rest' with
  | nil => exact List.IsChain.nil
  | cons h hs ih =>
    obtain ⟨same, below, below', rfl, rfl, ho, hn, hbelow⟩ := applyFrom_cons_eq_some_iff.mp happly
    have hdrop : old.drop (h.oldStart + h.removed.length) = below := by
      rw [ho, Nat.add_assoc, ← List.drop_drop, hrest, ← List.length_append, List.drop_left]
    have hdrop' : new.drop (h.newStart + h.added.length) = below' := by
      rw [hn, Nat.add_assoc, ← List.drop_drop, hrest', ← List.length_append, List.drop_left]
    have htail := ih (List.pairwise_cons.mp hbefore).2 hdrop hdrop' hbelow
    cases hs with
    | nil => exact List.IsChain.singleton h
    | cons k hs =>
      refine List.IsChain.cons_cons ?_ htail
      obtain ⟨between, rest, rest', rfl, rfl, hk, hk', -⟩ := applyFrom_cons_eq_some_iff.mp hbelow
      refine ⟨between, ?_, hk, hk', ?_, ?_⟩
      · rintro rfl
        have hlt := ((List.pairwise_cons.mp hbefore).1 k (by simp)).1
        rw [List.length_nil] at hk
        omega
      · rw [hdrop, List.append_assoc]
        exact List.prefix_append _ _
      · rw [hdrop', List.append_assoc]
        exact List.prefix_append _ _

end Hunk

/-! ## The hunks between two lists of lines -/

/-- The hunks and a longest common subsequence share the lines out among them. -/
theorem sum_size_hunks {old new : List Text}
    (h : (middle old new).1.length * (middle old new).2.length ≤ Alignment.maxCells) :
    ((hunks old new).map Hunk.size).sum + 2 * lcsLength old new = old.length + new.length := by
  have hscript := script_alignment (middle old new).1 (middle old new).2
  obtain ⟨hremove, hadd⟩ := hscript.count_keep_add
  rw [count_keep_alignment h] at hremove hadd
  have hsum : ((hunks old new).map Hunk.size).sum =
      (alignment (middle old new).1 (middle old new).2).count .remove +
        (alignment (middle old new).1 (middle old new).2).count .add := Hunk.sum_size_ofSteps hscript _ _
  obtain ⟨front, back, hold, hnew, -⟩ := exists_eq_middle old new
  have hlcs := lcsLength_common front (middle old new).1 (middle old new).2 back
  have holdLength := congrArg List.length hold
  have hnewLength := congrArg List.length hnew
  rw [← hold, ← hnew] at hlcs
  simp only [List.length_append] at holdLength hnewLength
  omega

theorem commonLength_self (lines : List Text) : commonLength lines lines = lines.length := by
  induction lines with
  | nil => rfl
  | cons line lines ih => rw [commonLength, if_pos rfl, ih, List.length_cons]

theorem hunks_self (lines : List Text) : hunks lines lines = [] := by
  have hmiddle : middle lines lines = ([], []) := by
    unfold middle
    dsimp only
    rw [commonLength_self, List.drop_length]
    rfl
  have hempty : alignment ([] : List Text) [] = [] := if_pos (Or.inl rfl)
  rw [hunks_eq_ofSteps, hmiddle]
  dsimp only
  rw [hempty, Hunk.ofSteps]

theorem size_pos_of_mem_hunks {old new : List Text} {k : Hunk} (hk : k ∈ hunks old new) : 0 < k.size :=
  Hunk.size_pos_of_mem_ofSteps (script_alignment (middle old new).1 (middle old new).2) hk

theorem isChain_hunks (old new : List Text) : (hunks old new).IsChain (Hunk.Separated old new) :=
  Hunk.isChain_separated (pairwise_hunks old new) rfl rfl (apply_hunks old new)

/-! ## The text of a patch -/

namespace Patch

/-- The lines of a text of hunks that remove or add a line. -/
def changedLines (body : Text) : List Text :=
  (Text.splitOn '\n' body).filter fun line => line.head? = some '-' ∨ line.head? = some '+'

theorem filter_patchLines (h : Hunk) :
    (h.patchLines.filter fun line => line.head? = some '-' ∨ line.head? = some '+') =
      h.removed.map ('-' :: ·) ++ h.added.map ('+' :: ·) := by
  rw [Hunk.patchLines, List.filter_cons_of_neg (by simp [Hunk.header])]
  refine List.filter_eq_self.mpr fun line hline => ?_
  rcases List.mem_append.mp hline with hline | hline <;> obtain ⟨text, -, rfl⟩ := List.mem_map.mp hline <;>
    simp

theorem changedLines_flatMap {hs : List Hunk}
    (h : ∀ k ∈ hs, (∀ line ∈ k.removed, '\n' ∉ line) ∧ ∀ line ∈ k.added, '\n' ∉ line) :
    changedLines (hs.flatMap Hunk.text) =
      hs.flatMap fun k => k.removed.map ('-' :: ·) ++ k.added.map ('+' :: ·) := by
  have htext : hs.flatMap Hunk.text = (hs.flatMap Hunk.patchLines).flatMap (· ++ ['\n']) := by
    rw [List.flatMap_assoc]
    exact List.flatMap_congr fun k _ => k.text_eq
  have hlines : ∀ line ∈ hs.flatMap Hunk.patchLines, '\n' ∉ line := by
    intro line hline
    obtain ⟨k, hk, hline⟩ := List.mem_flatMap.mp hline
    exact Hunk.newline_not_mem_patchLines (h k hk).1 (h k hk).2 hline
  rw [changedLines, htext, Text.splitOn_flatMap hlines, List.filter_append, List.filter_flatMap]
  simp only [filter_patchLines]
  simp

theorem length_changedLines {hs : List Hunk}
    (h : ∀ k ∈ hs, (∀ line ∈ k.removed, '\n' ∉ line) ∧ ∀ line ∈ k.added, '\n' ∉ line) :
    (changedLines (hs.flatMap Hunk.text)).length = (hs.map Hunk.size).sum := by
  rw [changedLines_flatMap h, List.length_flatMap]
  simp only [List.length_append, List.length_map]
  rfl

/-- The text of a patch and the shape of its hunks. -/
structure Shaped (path before after : Text) (hs : List Hunk) : Prop where
  text : patchText path before after = (if before = after then [] else patchHeader path) ++ hs.flatMap Hunk.text
  nonempty : ∀ h ∈ hs, h.removed ≠ [] ∨ h.added ≠ []
  separated : hs.IsChain (Hunk.Separated before.lines after.lines)

end Patch

/-- **The patch between two texts is as short as it can be.** If the lines that differ are few enough for
a table, it changes all lines of both texts but those of a longest common subsequence. No hunk is empty, and
lines that both texts have stand between any two. -/
theorem patchText_minimal (path before after : Text) :
    ∃ hs, Patch.Shaped path before after hs ∧
      ((middle before.lines after.lines).1.length * (middle before.lines after.lines).2.length ≤
          Alignment.maxCells →
        ∃ common, LongestCommon common before.lines after.lines ∧
          (Patch.changedLines (hs.flatMap Hunk.text)).length + 2 * common.length =
            before.lines.length + after.lines.length) := by
  refine ⟨hunks before.lines after.lines, ?_, fun h => ?_⟩
  · constructor
    case text =>
      by_cases h : before = after
      · rw [patchText, if_pos h, if_pos h, h, hunks_self, List.flatMap_nil, List.append_nil]
      · rw [patchText, if_neg h, if_neg h]
    case nonempty =>
      intro k hk
      have hpos := size_pos_of_mem_hunks hk
      rw [Hunk.size] at hpos
      by_contra hempty
      push Not at hempty
      rw [hempty.1, hempty.2] at hpos
      exact absurd hpos (lt_irrefl 0)
    case separated => exact isChain_hunks _ _
  · obtain ⟨common, hcommon, hlength⟩ := exists_longestCommon before.lines after.lines
    refine ⟨common, hcommon, ?_⟩
    have hlines : ∀ k ∈ hunks before.lines after.lines,
        (∀ line ∈ k.removed, '\n' ∉ line) ∧ ∀ line ∈ k.added, '\n' ∉ line := by
      intro k hk
      obtain ⟨hold, hnew⟩ := Hunk.mem_of_applyFrom (apply_hunks before.lines after.lines) hk
      exact ⟨fun line hline => Text.newline_not_mem_lines (hold line hline),
        fun line hline => Text.newline_not_mem_lines (hnew line hline)⟩
    rw [Patch.length_changedLines hlines, hlength]
    exact sum_size_hunks h

/-- Two texts that share a line in front, a line at the end and the order of a repeated line. -/
def plainLetters : Text := "a\nb\nc\nb\nd\n".toList

def movedLetters : Text := "a\nc\nb\nx\nb\nd".toList

theorem patchText_minimal_letters :
    (middle plainLetters.lines movedLetters.lines).1.length *
          (middle plainLetters.lines movedLetters.lines).2.length ≤ Alignment.maxCells ∧
      ∃ hs, Patch.Shaped ['a'] plainLetters movedLetters hs ∧
        ∃ common, LongestCommon common plainLetters.lines movedLetters.lines ∧
          (Patch.changedLines (hs.flatMap Hunk.text)).length + 2 * common.length =
            plainLetters.lines.length + movedLetters.lines.length := by
  have hfits : (middle plainLetters.lines movedLetters.lines).1.length *
      (middle plainLetters.lines movedLetters.lines).2.length ≤ Alignment.maxCells := by decide
  obtain ⟨hs, hshaped, hminimal⟩ := patchText_minimal ['a'] plainLetters movedLetters
  exact ⟨hfits, hs, hshaped, hminimal hfits⟩

end Constify
