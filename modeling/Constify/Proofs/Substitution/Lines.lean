import Constify.Proofs.Substitution.Shape
import Constify.Proofs.Text.Lines

/-!
# Substitutions and lines

* `Substitution.applyAll_append_cons` : a character that stands in no pattern keeps the two sides apart;
* `Substitution.count_applyAll` : a character that stands in the patterns only becomes rarer, unless no
  substitution is made;
* `Substitution.splitOn_applyAll` : so the pieces between such characters are changed each on its own;
* `Table.splitOn_lift`, `Table.length_lines_lift`, `Table.getLast?_lift_eq_return_iff` : substitutions are
  made line by line, and each line keeps its end;
* `Table.count_quote_lift` : a text in which a substitution is made loses double quotes.
-/

namespace Constify

/-! ## Substitutions one after the other -/

namespace Substitution

variable {ss : List Substitution} {x : Char}

theorem applyAll_append_cons (hp : ∀ s ∈ ss, s.pattern ≠ []) (hx : ∀ s ∈ ss, x ∉ s.pattern)
    (a b : Text) :
    (applyAll ss (a ++ x :: b)).content = (applyAll ss a).content ++ x :: (applyAll ss b).content := by
  induction ss generalizing a b with
  | nil => rfl
  | cons s ss ih =>
    have hs : s.apply (a ++ x :: b) = s.apply a ++ x :: s.apply b :=
      Text.replaceAll_append_cons (hp s (by simp)) _ (hx s (by simp)) a b
    simp only [applyAll]
    rw [hs, ih (fun r hr => hp r (List.mem_cons_of_mem _ hr))
      fun r hr => hx r (List.mem_cons_of_mem _ hr)]

theorem not_mem_applyAll (hp : ∀ s ∈ ss, s.pattern ≠ []) (hx : ∀ s ∈ ss, x ∉ s.replacement)
    {content : Text} (h : x ∉ content) : x ∉ (applyAll ss content).content := by
  induction ss generalizing content with
  | nil => exact h
  | cons s ss ih =>
    refine ih (fun r hr => hp r (List.mem_cons_of_mem _ hr))
      (fun r hr => hx r (List.mem_cons_of_mem _ hr)) ?_
    have hcount := Text.count_replaceAll (hp s (by simp)) s.replacement content x
    rw [List.count_eq_zero.mpr h, List.count_eq_zero.mpr (hx s (by simp))] at hcount
    rw [← List.count_eq_zero, apply]
    omega

/-- Where `x` is a character that no substitution looks for or puts in, the pieces between the `x` are
changed each on its own. -/
theorem splitOn_applyAll (hp : ∀ s ∈ ss, s.pattern ≠ []) (hx : ∀ s ∈ ss, x ∉ s.pattern)
    (hr : ∀ s ∈ ss, x ∉ s.replacement) (content : Text) :
    Text.splitOn x (applyAll ss content).content =
      (Text.splitOn x content).map fun piece => (applyAll ss piece).content :=
  Text.splitOn_map (fun piece => (applyAll ss piece).content) (applyAll_append_cons hp hx)
    (fun _ ha => not_mem_applyAll hp hr ha) content

theorem eq_nil_of_applyAll_eq_nil (hp : ∀ s ∈ ss, s.pattern ≠ [])
    (hr : ∀ s ∈ ss, s.replacement ≠ []) {content : Text} (h : (applyAll ss content).content = []) :
    content = [] := by
  induction ss generalizing content with
  | nil => exact h
  | cons s ss ih =>
    have hs : s.apply content = [] := ih (fun r hr => hp r (List.mem_cons_of_mem _ hr))
      (fun r hmem => hr r (List.mem_cons_of_mem _ hmem)) h
    exact Text.eq_nil_of_replaceAll_eq_nil (hp s (by simp)) (hr s (by simp)) hs

theorem applyAll_nil (ss : List Substitution) : (applyAll ss []).content = [] := by
  induction ss with
  | nil => rfl
  | cons s ss ih => exact ih

/-- Either no substitution is made, or a character that stands in the patterns and in no replacement
becomes rarer. -/
theorem count_applyAll (hx : ∀ s ∈ ss, x ∈ s.pattern) (hr : ∀ s ∈ ss, x ∉ s.replacement)
    (content : Text) :
    applyAll ss content = ⟨content, []⟩ ∨ (applyAll ss content).hits ≠ [] ∧
      (applyAll ss content).content.count x < content.count x := by
  induction ss generalizing content with
  | nil => exact Or.inl rfl
  | cons s ss ih =>
    have hrest := ih (fun r hmem => hx r (List.mem_cons_of_mem _ hmem))
      (fun r hmem => hr r (List.mem_cons_of_mem _ hmem)) (s.apply content)
    have hp : s.pattern ≠ [] := List.ne_nil_of_mem (hx s (by simp))
    by_cases hzero : s.count content = 0
    · have hs : s.apply content = content := Text.replaceAll_of_countOf_eq_zero hp _ hzero
      have hnone : s.hit? content = none := if_pos hzero
      rw [hs] at hrest
      rw [applyAll, hs, hnone]
      exact hrest
    · have hsome : s.hit? content = some ⟨s.context, s.key, s.count content⟩ := if_neg hzero
      have hcount := Text.count_replaceAll hp s.replacement content x
      rw [List.count_eq_zero.mpr (hr s (by simp)), Nat.mul_zero, Nat.add_zero] at hcount
      have hpos : 0 < Text.countOf s.pattern content * s.pattern.count x :=
        Nat.mul_pos (Nat.pos_of_ne_zero hzero) (List.count_pos_iff.mpr (hx s (by simp)))
      have hs : (s.apply content).count x < content.count x := by
        rw [apply]
        omega
      rw [applyAll, hsome]
      refine Or.inr ⟨List.cons_ne_nil _ _, ?_⟩
      rcases hrest with h | ⟨-, h⟩
      · rw [h]
        exact hs
      · exact h.trans hs

end Substitution

/-! ## The substitutions of a table -/

namespace Table

theorem splitOn_lift (t : Table) (content : Text) :
    Text.splitOn '\n' (t.lift content).content =
      (Text.splitOn '\n' content).map fun line => (t.lift line).content :=
  Substitution.splitOn_applyAll (fun _ hs => pattern_ne_nil hs) (fun _ hs => newline_not_mem_pattern hs)
    (fun _ hs => newline_not_mem_replacement hs) content

theorem lift_eq_nil_iff (t : Table) {content : Text} : (t.lift content).content = [] ↔ content = [] := by
  constructor
  · exact Substitution.eq_nil_of_applyAll_eq_nil (fun _ hs => pattern_ne_nil hs)
      fun _ hs => replacement_ne_nil hs
  · rintro rfl
    exact Substitution.applyAll_nil t.substitutions

theorem length_lines_lift (t : Table) (content : Text) :
    (t.lift content).content.lines.length = content.lines.length := by
  rw [Text.length_lines, Text.length_lines, splitOn_lift, Text.lineCount_map fun _ => t.lift_eq_nil_iff]

/-- A text ends with a carriage return exactly if it did before. -/
theorem getLast?_lift_eq_return_iff (t : Table) {content : Text} :
    (t.lift content).content.getLast? = some '\r' ↔ content.getLast? = some '\r' := by
  have hp : ∀ s ∈ t.substitutions, s.pattern ≠ [] := fun _ hs => pattern_ne_nil hs
  have hx : ∀ s ∈ t.substitutions, '\r' ∉ s.pattern := fun _ hs => return_not_mem_pattern hs
  have hr : ∀ s ∈ t.substitutions, '\r' ∉ s.replacement := fun _ hs => return_not_mem_replacement hs
  constructor
  · intro h
    have hpieces := Substitution.splitOn_applyAll hp hx hr content
    obtain ⟨front, hfront⟩ := List.getLast?_eq_some_iff.mp h
    rw [← lift, hfront, Text.splitOn_append_cons] at hpieces
    -- the piece behind the last carriage return is empty, and it was before
    have hlast : (Text.splitOn '\r' content).getLastD [] = [] := by
      have hmap := congrArg List.getLast? hpieces
      have hne := Text.splitOn_ne_nil '\r' content
      rw [List.getLast?_map, List.getLast?_append, List.getLast?_eq_some_getLast hne] at hmap
      rw [List.getLastD_eq_getLast?, List.getLast?_eq_some_getLast hne, Option.getD_some]
      exact t.lift_eq_nil_iff.mp (Option.some.inj hmap).symm
    refine (Text.getLastD_splitOn_eq_nil hlast).resolve_left ?_
    rintro rfl
    rw [lift, Substitution.applyAll_nil] at h
    cases h
  · intro h
    obtain ⟨front, rfl⟩ := List.getLast?_eq_some_iff.mp h
    rw [lift, Substitution.applyAll_append_cons hp hx, Substitution.applyAll_nil, List.getLast?_concat]

/-- Either no substitution is made, or the text loses double quotes. -/
theorem count_quote_lift (t : Table) (content : Text) :
    t.lift content = ⟨content, []⟩ ∨ (t.lift content).hits ≠ [] ∧
      (t.lift content).content.count '"' < content.count '"' :=
  Substitution.count_applyAll (fun _ hs => quote_mem_pattern hs)
    (fun _ hs => quote_not_mem_replacement hs) content

end Table

end Constify
