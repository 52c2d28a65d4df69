import Mathlib.Tactic
import Constify.Text.Basic

/-!
# Splitting and joining

* `Text.splitOn_eq` : splitting a text is splitting a list;
* `Text.intercalate_append_of_ne_nil`, `Text.intercalate_append_eq_flatMap` : joining two rows of pieces;
* `Text.splitOn_append_cons`, `Text.splitOn_intercalate` : splitting at a separator and joining;
* `Text.not_mem_of_mem_splitOn`, `Text.splitOn_intercalate_eq_flatMap` : the pieces;
* `Text.splitOn_map` : what works piece by piece.
-/

namespace Constify

namespace Text

theorem splitOn_eq (sep : Char) (t : Text) : splitOn sep t = List.splitOn sep t := by
  induction t with
  | nil => rfl
  | cons c cs ih =>
    rw [splitOn, List.splitOn_cons_eq_if_modifyHead, ih]
    by_cases h : c = sep
    · rw [if_pos h, if_pos (by simpa using h)]
    · rw [if_neg h, if_neg (by simpa using h)]
      cases hs : List.splitOn sep cs with
      | nil => exact absurd hs (List.splitOn_ne_nil sep cs)
      | cons p ps => rfl

theorem intercalate_append_of_ne_nil {α : Type} (s : List α) {a b : List (List α)} (ha : a ≠ [])
    (hb : b ≠ []) : s.intercalate (a ++ b) = s.intercalate a ++ s ++ s.intercalate b := by
  induction a with
  | nil => exact absurd rfl ha
  | cons g gs ih =>
    cases gs with
    | nil =>
      obtain ⟨h, hs, rfl⟩ := List.exists_cons_of_ne_nil hb
      rw [List.singleton_append, List.intercalate_cons_cons, List.intercalate_singleton]
    | cons g' gs =>
      rw [List.cons_append, List.cons_append, List.intercalate_cons_cons, ← List.cons_append, ih (by simp),
        List.intercalate_cons_cons]
      simp only [List.append_assoc]

theorem intercalate_cons_eq_flatMap {α : Type} (sep g : List α) (gs : List (List α)) :
    sep.intercalate (g :: gs) = g ++ gs.flatMap (sep ++ ·) := by
  induction gs generalizing g with
  | nil => rw [List.intercalate_singleton, List.flatMap_nil, List.append_nil]
  | cons g' gs ih =>
    rw [List.intercalate_cons_cons, ih, List.flatMap_cons, List.append_assoc, List.append_assoc]

theorem intercalate_append_eq_flatMap (sep : Text) (front : List Text) {back : List Text} (h : back ≠ []) :
    sep.intercalate (front ++ back) = front.flatMap (· ++ sep) ++ sep.intercalate back := by
  induction front with
  | nil => rfl
  | cons g front ih =>
    obtain ⟨g', gs, hgs⟩ := List.exists_cons_of_ne_nil (List.append_ne_nil_of_right_ne_nil front h)
    rw [List.cons_append, hgs, List.intercalate_cons_cons, ← hgs, ih, List.flatMap_cons]
    simp only [List.append_assoc]

theorem splitOn_append_cons (sep : Char) (x y : Text) :
    splitOn sep (x ++ sep :: y) = splitOn sep x ++ splitOn sep y := by
  rw [splitOn_eq, splitOn_eq, splitOn_eq, List.splitOn_append_cons_self]

theorem splitOn_intercalate {sep : Char} {gs : List Text} (hne : gs ≠ [])
    (hgs : ∀ g ∈ gs, sep ∉ g) : splitOn sep ([sep].intercalate gs) = gs := by
  rw [splitOn_eq, List.splitOn_intercalate sep hgs hne]

theorem not_mem_of_mem_splitOn {sep : Char} {t g : Text} (hg : g ∈ splitOn sep t) : sep ∉ g := by
  induction t generalizing g with
  | nil =>
    rw [splitOn, List.mem_singleton] at hg
    simp [hg]
  | cons c cs ih =>
    rw [splitOn] at hg
    split at hg
    · rcases List.mem_cons.mp hg with rfl | hg
      · simp
      · exact ih hg
    · next hc =>
      obtain ⟨p, ps, hps⟩ := List.exists_cons_of_ne_nil (splitOn_ne_nil sep cs)
      rw [hps, consHead] at hg
      rw [hps] at ih
      rcases List.mem_cons.mp hg with rfl | hg
      · rw [List.mem_cons, not_or]
        exact ⟨Ne.symm hc, ih (by simp)⟩
      · exact ih (List.mem_cons_of_mem _ hg)

theorem splitOn_of_not_mem {sep : Char} {t : Text} (h : sep ∉ t) : splitOn sep t = [t] := by
  have hsplit : splitOn sep ([sep].intercalate [t]) = [t] :=
    splitOn_intercalate (by simp) (by simpa using h)
  rwa [List.intercalate_singleton] at hsplit

/-- Splitting pieces that were joined splits each piece. -/
theorem splitOn_intercalate_eq_flatMap (sep : Char) {gs : List Text} (hne : gs ≠ []) :
    splitOn sep ([sep].intercalate gs) = gs.flatMap (splitOn sep) := by
  induction gs with
  | nil => exact absurd rfl hne
  | cons g gs ih =>
    cases gs with
    | nil => simp
    | cons g' gs =>
      rw [List.intercalate_cons_cons, List.append_assoc, List.singleton_append, splitOn_append_cons,
        ih (by simp)]
      rfl

theorem flatMap_splitOn_of_forall {sep : Char} {gs : List Text} (h : ∀ g ∈ gs, sep ∉ g) :
    gs.flatMap (splitOn sep) = gs := by
  rw [List.flatMap_congr fun g hg => splitOn_of_not_mem (h g hg)]
  exact List.flatMap_singleton' gs

theorem splitOn_map {sep : Char} (f : Text → Text)
    (hf : ∀ a b, f (a ++ sep :: b) = f a ++ sep :: f b) (hsep : ∀ a, sep ∉ a → sep ∉ f a) (t : Text) :
    splitOn sep (f t) = (splitOn sep t).map f := by
  have hjoin : ∀ gs : List Text, gs ≠ [] →
      f ([sep].intercalate gs) = [sep].intercalate (gs.map f) := by
    intro gs hne
    induction gs with
    | nil => exact absurd rfl hne
    | cons g gs ih =>
      cases gs with
      | nil => simp
      | cons g' gs =>
        rw [List.map_cons] at ih
        rw [List.intercalate_cons_cons, List.append_assoc, List.singleton_append, hf, ih (by simp),
          List.map_cons, List.map_cons, List.intercalate_cons_cons, List.append_assoc]
        rfl
  have ht := hjoin (splitOn sep t) (splitOn_ne_nil sep t)
  rw [intercalate_splitOn] at ht
  rw [ht]
  refine splitOn_intercalate (by simp) fun g hg => ?_
  obtain ⟨p, hp, rfl⟩ := List.mem_map.mp hg
  exact hsep p (not_mem_of_mem_splitOn hp)

end Text

end Constify
