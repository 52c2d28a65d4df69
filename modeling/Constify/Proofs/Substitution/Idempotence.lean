import Constify.Proofs.Substitution.Shape

/-!
# Making substitutions twice

* `Table.apart` : no pattern of a table overlaps with a replacement of the table;
* `Substitution.not_infix_applyAll` : while substitutions are made one after the other, the patterns
  that were dealt with stay away;
* `Table.not_infix_lift` : a text with every substitution made holds no pattern;
* `lift_idempotent` : making the substitutions again changes nothing and reports nothing.
-/

namespace Constify

open Text (Apart)

/-! ## One table's patterns and replacements -/

namespace Table

theorem apart {t : Table} (ht : t.Unmixed) {s r : Substitution} (hs : s ∈ t.substitutions)
    (hr : r ∈ t.substitutions) : Apart s.pattern r.replacement := by
  obtain ⟨m, -, hp, -, -, hm⟩ := t.exists_shape hs
  obtain ⟨-, u, -, hq, hu, -⟩ := t.exists_shape hr
  rw [hp, hq]
  refine s.context.apart_wrap r.context t.identifier_valid hu
    (hm _ (fun c hc => ?_) fun e he => not_infix_literal ht he)
  rcases eq_of_mem_quoteSeparator hc with rfl | rfl | rfl <;>
    exact not_mem_referenceFront t.identifier_valid (by decide) (by decide)

/-- The tags of a table of names hold no dot, so none of them holds the front of a reference. -/
theorem unmixed_of_ofNames {name : Text} {names : List Text} {t : Table}
    (h : ofNames name names = .ok t) : t.Unmixed := by
  intro e he
  have hkey := t.key_valid he
  rw [(identifier_of_ofEntries h).2, List.mem_map] at he
  obtain ⟨tag, -, rfl⟩ := he
  rw [Bool.eq_false_iff, Ne, Text.occursIn_iff]
  intro hinf
  have hdot : '.' ∈ tag := hinf.subset (by simp [referenceFront])
  exact absurd (isIdentChar_of_mem hkey hdot) (by decide)

end Table

/-! ## Substitutions one after the other -/

namespace Substitution

theorem not_infix_apply {s r : Substitution} (hs : s.pattern ≠ [])
    (hr : Apart r.pattern s.replacement) {content : Text}
    (h : r.pattern = s.pattern ∨ ¬ r.pattern <:+: content) :
    ¬ r.pattern <:+: s.apply content := by
  rcases h with h | h
  · rw [h] at hr ⊢
    exact Text.not_infix_replaceAll_self hs hr content
  · exact Text.not_infix_replaceAll hs hr h

/-- The patterns of `done` have been dealt with before the substitutions `ss` are made. -/
theorem not_infix_applyAll {ss done : List Substitution} (hss : ∀ s ∈ ss, s.pattern ≠ [])
    (hapart : ∀ r ∈ done ++ ss, ∀ s ∈ ss, Apart r.pattern s.replacement) {content : Text}
    (hdone : ∀ r ∈ done, ¬ r.pattern <:+: content) :
    ∀ r ∈ done ++ ss, ¬ r.pattern <:+: (applyAll ss content).content := by
  induction ss generalizing done content with
  | nil => simpa [applyAll] using hdone
  | cons s ss ih =>
    have hstep : ∀ r ∈ done ++ [s], ¬ r.pattern <:+: s.apply content := by
      intro r hr
      refine not_infix_apply (hss s (by simp)) (hapart r ?_ s (by simp)) ?_
      · rw [List.mem_append, List.mem_singleton] at hr
        simpa using hr.imp_right Or.inl
      · rcases List.mem_append.mp hr with hr | hr
        · exact Or.inr (hdone r hr)
        · rw [List.mem_singleton.mp hr]
          exact Or.inl rfl
    have hrest := ih (fun r hr => hss r (List.mem_cons_of_mem _ hr))
      (fun r hr q hq => hapart r (by simpa using hr) q (List.mem_cons_of_mem _ hq)) hstep
    intro r hr
    exact hrest r (by simpa using hr)

theorem applyAll_of_not_infix {ss : List Substitution} {content : Text}
    (h : ∀ s ∈ ss, ¬ s.pattern <:+: content) : applyAll ss content = ⟨content, []⟩ := by
  induction ss with
  | nil => rfl
  | cons s ss ih =>
    have hs := h s (by simp)
    have happly : s.apply content = content := Text.replaceAll_of_not_infix _ hs
    have hhit : s.hit? content = none := by
      rw [hit?, count, Text.countOf_of_not_infix hs]
      rfl
    rw [applyAll, happly, hhit, ih fun r hr => h r (List.mem_cons_of_mem _ hr)]
    rfl

end Substitution

/-! ## The substitutions of a table -/

namespace Table

theorem not_infix_lift {t : Table} (ht : t.Unmixed) {s : Substitution} (hs : s ∈ t.substitutions)
    (content : Text) : ¬ s.pattern <:+: (t.lift content).content :=
  Substitution.not_infix_applyAll (fun _ hs => pattern_ne_nil hs)
    (fun _ hr _ hs => apart ht hr hs) (fun _ hr => absurd hr List.not_mem_nil) s hs

theorem lift_of_not_infix {t : Table} {content : Text}
    (h : ∀ s ∈ t.substitutions, ¬ s.pattern <:+: content) : t.lift content = ⟨content, []⟩ :=
  Substitution.applyAll_of_not_infix h

end Table

/-- **Making the substitutions of a table is idempotent.** If no literal of the table holds the front
of a reference, as in every table of names, the new text holds no pattern of the table; so the
substitutions made again report nothing and give the same text. -/
theorem lift_idempotent :
    (∀ name names t, Table.ofNames name names = .ok t → t.Unmixed) ∧ Table.standard.Unmixed ∧
      ∀ t : Table, t.Unmixed → ∀ content,
        (∀ s ∈ t.substitutions, Text.occursIn s.pattern (t.lift content).content = false) ∧
          t.lift (t.lift content).content = ⟨(t.lift content).content, []⟩ := by
  refine ⟨fun name names t h => Table.unmixed_of_ofNames h,
    Table.unmixed_of_ofNames Table.ofNames_standard, fun t ht content => ⟨?_, ?_⟩⟩
  · intro s hs
    rw [Bool.eq_false_iff, Ne, Text.occursIn_iff]
    exact Table.not_infix_lift ht hs content
  · exact Table.lift_of_not_infix fun s hs => Table.not_infix_lift ht hs content

def operatorTable : Table where
  identifier := ['C']
  entries := [⟨['a'], ['=', '=', '=', ' ']⟩, ⟨['b'], ['(', 'C', ')']⟩, ⟨['c'], ['c']⟩]
  identifier_valid := by decide
  entries_ne_nil := by decide
  entries_valid := by decide

/-- The text `=== "=== "=== "=== "` holds two overlapping occurrences of the first pattern. -/
theorem lift_idempotent_operatorTable :
    Table.ofNames Table.standardIdentifier Table.standardNames = .ok Table.standard ∧
      Table.standard.Unmixed ∧ operatorTable.Unmixed ∧
        operatorTable.lift (operatorTable.lift "=== \"=== \"=== \"=== \"".toList).content =
          ⟨(operatorTable.lift "=== \"=== \"=== \"=== \"".toList).content, []⟩ :=
  ⟨Table.ofNames_standard, lift_idempotent.1 _ _ _ Table.ofNames_standard, by decide,
    (lift_idempotent.2.2 operatorTable (by decide) _).2⟩

end Constify
