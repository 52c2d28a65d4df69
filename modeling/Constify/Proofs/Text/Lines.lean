import Constify.Proofs.Text.Occurrence
import Constify.Proofs.Text.Split
import Constify.Text.Lines

/-!
# The lines of a text

* `infix_of_mem_splitOn`, `count_lines` : what stands in the pieces and in the lines;
* `lineCount`, `length_lines` : how many lines pieces between line feeds make;
* `lineCount_map`, `lineCount_insert` : pieces changed one by one, and pieces put between others.
-/

namespace Constify.Text

/-! ## What stands in the lines -/

theorem infix_of_mem_splitOn {sep : Char} {t piece : Text} (h : piece ∈ splitOn sep t) : piece <:+: t := by
  rw [← intercalate_splitOn sep t]
  exact infix_intercalate h

theorem count_stripReturn {c : Char} (hc : c ≠ '\r') (line : Text) :
    (stripReturn line).count c = line.count c := by
  unfold stripReturn
  split
  · next h =>
    obtain ⟨r, rfl⟩ := List.getLast?_eq_some_iff.mp h
    rw [List.dropLast_concat, List.count_append, List.count_singleton]
    simp [hc.symm]
  · rfl

theorem count_lines {c : Char} (hr : c ≠ '\r') (hn : c ≠ '\n') (t : Text) :
    (t.lines.map (List.count c)).sum = t.count c := by
  have hpieces : t.count c = ((splitOn '\n' t).map (List.count c)).sum := by
    have h := congrArg (List.count c) (intercalate_splitOn '\n' t)
    rw [count_intercalate, List.count_singleton] at h
    simpa [hn.symm] using h.symm
  have hne := splitOn_ne_nil '\n' t
  rw [hpieces, lines, List.getLastD_eq_getLast?, List.getLast?_eq_some_getLast hne]
  conv => rhs; rw [← List.dropLast_append_getLast hne]
  simp only [List.map_append, List.map_map, List.sum_append, Option.getD_some]
  congr 1
  · exact congrArg List.sum (List.map_congr_left fun line _ => count_stripReturn hr line)
  · split
    · next h => simp [h]
    · rfl

/-! ## The number of lines -/

/-- The number of lines that pieces between line feeds make: the last one is a line only if it is not
empty. -/
def lineCount (pieces : List Text) : Nat :=
  pieces.length - 1 + if pieces.getLastD [] = [] then 0 else 1

theorem length_lines (t : Text) : t.lines.length = lineCount (splitOn '\n' t) := by
  unfold lines lineCount
  rw [List.length_append, List.length_map, List.length_dropLast]
  split <;> rfl

theorem lineCount_le_length (pieces : List Text) : lineCount pieces ≤ pieces.length := by
  unfold lineCount
  cases pieces with
  | nil => exact Nat.le_refl 0
  | cons g gs =>
    rw [List.length_cons]
    split <;> omega

theorem lineCount_map {f : Text → Text} (hf : ∀ g, f g = [] ↔ g = []) (pieces : List Text) :
    lineCount (pieces.map f) = lineCount pieces := by
  unfold lineCount
  rw [List.length_map, List.getLastD_eq_getLast?, List.getLastD_eq_getLast?, List.getLast?_map]
  cases pieces.getLast? with
  | none => rfl
  | some g => simp only [Option.map_some, Option.getD_some, hf]

/-- More pieces, the last of which is not empty, make more lines. -/
theorem lineCount_insert (above below : List Text) {pieces : List Text} (hne : pieces ≠ [])
    (hlast : pieces.getLastD [] ≠ []) :
    lineCount (above ++ below) < lineCount (above ++ (pieces ++ below)) := by
  have hpos := List.length_pos_iff.mpr hne
  rw [List.getLastD_eq_getLast?, List.getLast?_eq_some_getLast hne, Option.getD_some] at hlast
  cases below with
  | nil =>
    have hle := lineCount_le_length above
    have hnew : lineCount (above ++ pieces) = above.length + pieces.length - 1 + 1 := by
      unfold lineCount
      rw [List.getLastD_eq_getLast?, List.getLast?_append, List.getLast?_eq_some_getLast hne,
        Option.some_or, Option.getD_some, if_neg hlast, List.length_append]
    rw [List.append_nil, List.append_nil, hnew]
    omega
  | cons g below =>
    have hend : (above ++ (pieces ++ g :: below)).getLastD [] = (above ++ g :: below).getLastD [] := by
      simp only [List.getLastD_eq_getLast?, List.getLast?_append,
        List.getLast?_eq_some_getLast (List.cons_ne_nil g below), Option.some_or]
    unfold lineCount
    rw [hend, List.length_append, List.length_append, List.length_append, List.length_cons]
    omega

theorem getLastD_splitOn_eq_nil {sep : Char} {t : Text} (h : (splitOn sep t).getLastD [] = []) :
    t = [] ∨ t.getLast? = some sep := by
  induction t with
  | nil => exact Or.inl rfl
  | cons c cs ih =>
    obtain ⟨p, ps, hps⟩ := List.exists_cons_of_ne_nil (splitOn_ne_nil sep cs)
    refine Or.inr ?_
    rw [splitOn, hps] at h
    rw [hps] at ih
    split at h
    · next hc =>
      rcases ih (by simpa [List.getLastD_eq_getLast?] using h) with rfl | hlast
      · simp [hc]
      · rw [List.getLast?_cons, hlast]
        rfl
    · cases ps with
      | nil => simp [consHead] at h
      | cons q ps =>
        rcases ih (by simpa [consHead, List.getLastD_eq_getLast?] using h) with rfl | hlast
        · cases hps
        · rw [List.getLast?_cons, hlast]
          rfl

end Constify.Text
