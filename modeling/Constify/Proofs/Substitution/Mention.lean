import Constify.Proofs.Identifier.Token
import Constify.Proofs.Substitution.Lines

/-!
# Substitutions that were made

* `Table.hits_lift_eq_nil_iff` : a substitution is reported exactly if the text changes;
* `Substitution.exists_infix_applyAll` : the last substitution that is made leaves its replacement;
* `Table.standsAlone_lift` : a text with substitutions mentions the constant object.
-/

namespace Constify

theorem Context.exists_front_eq (c : Context) :
    ∃ w k, c.front = w ++ [k] ∧ isIdentChar k = false := by
  cases c with
  | equality => exact ⟨['=', '=', '='], ' ', rfl, rfl⟩
  | inequality => exact ⟨['!', '=', '='], ' ', rfl, rfl⟩
  | membershipList => exact ⟨[], '[', rfl, rfl⟩
  | callArgument => exact ⟨[], '(', rfl, rfl⟩

/-- The replacement of the last substitution that is made stands in the text: no later one touches
it. -/
theorem Substitution.exists_infix_applyAll {ss : List Substitution} {x : Char}
    (hx : ∀ s ∈ ss, x ∈ s.pattern) (hr : ∀ s ∈ ss, x ∉ s.replacement) {content : Text}
    (h : (applyAll ss content).hits ≠ []) :
    ∃ s ∈ ss, s.replacement <:+: (applyAll ss content).content := by
  induction ss generalizing content with
  | nil => exact absurd rfl h
  | cons s ss ih =>
    have hx' := fun r hmem => hx r (List.mem_cons_of_mem s hmem)
    have hr' := fun r hmem => hr r (List.mem_cons_of_mem s hmem)
    rcases count_applyAll hx' hr' (s.apply content) with hrest | ⟨hrest, -⟩
    · rw [applyAll, hrest] at h ⊢
      have hcount : s.count content ≠ 0 := by
        intro hzero
        rw [hit?, hzero] at h
        exact h rfl
      exact ⟨s, by simp, Text.infix_replaceAll s.replacement hcount⟩
    · obtain ⟨r, hmem, hinf⟩ := ih hx' hr' hrest
      exact ⟨r, List.mem_cons_of_mem s hmem, hinf⟩

namespace Table

variable {t : Table} {content : Text}

theorem hits_lift_eq_nil_iff : (t.lift content).hits = [] ↔ (t.lift content).content = content := by
  rcases t.count_quote_lift content with h | ⟨hhits, hlt⟩
  · rw [h]
    exact iff_of_true rfl rfl
  · refine iff_of_false hhits fun heq => ?_
    rw [heq] at hlt
    exact lt_irrefl _ hlt

theorem infix_replacement {s : Substitution} (hs : s ∈ t.substitutions) :
    ∃ k, isIdentChar k = false ∧ k :: t.identifier ++ ['.'] <:+: s.replacement := by
  obtain ⟨-, r, -, hr, href, -⟩ := t.exists_shape hs
  obtain ⟨w, k, hfront, hk⟩ := s.context.exists_front_eq
  obtain ⟨u, rfl⟩ := href.front
  refine ⟨k, hk, w, u ++ s.context.back, ?_⟩
  rw [hr, Context.wrap_eq, hfront, referenceFront]
  simp

/-- A text in which a literal was replaced mentions the constant object. -/
theorem standsAlone_lift (h : (t.lift content).content ≠ content) :
    StandsAlone t.identifier (t.lift content).content := by
  obtain ⟨s, hs, hinf⟩ := Substitution.exists_infix_applyAll (fun _ hs => quote_mem_pattern hs)
    (fun _ hs => quote_not_mem_replacement hs) fun hnil => h (hits_lift_eq_nil_iff.mp hnil)
  obtain ⟨k, hk, hname⟩ := infix_replacement hs
  exact StandsAlone.of_infix hk (by decide) (hname.trans hinf)

end Table

end Constify
