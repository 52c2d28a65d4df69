import Mathlib.Data.List.TakeWhile
import Mathlib.Tactic
import Constify.Patch.Basic

/-!
# Applying patches

* `Script steps old new` : the steps turn the old list into the new one;
* `script_alignment` : an alignment of two lists does;
* `Hunk.applyFrom` : hunks applied one after the other, each checked against the lines it removes and
  against its place in both lists;
* `ofSteps_induction` : the hunks of a script, run by run;
* `applyFrom_ofSteps` : they turn the old lines into the new ones;
* `middle` : what lies between the lines that two lists have in common in front and at the end;
* `apply_hunks` : so do the hunks between two lists of lines.
-/

namespace Constify

/-! ## Scripts -/

/-- The steps turn the old list into the new one. -/
inductive Script {α : Type} : List Step → List α → List α → Prop
  | nil : Script [] [] []
  | keep {steps : List Step} {old new : List α} (a : α) (h : Script steps old new) :
      Script (.keep :: steps) (a :: old) (a :: new)
  | remove {steps : List Step} {old new : List α} (a : α) (h : Script steps old new) :
      Script (.remove :: steps) (a :: old) new
  | add {steps : List Step} {old new : List α} (b : α) (h : Script steps old new) :
      Script (.add :: steps) old (b :: new)

namespace Script

variable {α : Type} {steps : List Step} {old new : List α}

theorem adds (h : Script steps old new) (bs : List α) :
    Script (List.replicate bs.length .add ++ steps) old (bs ++ new) := by
  induction bs with
  | nil => exact h
  | cons b bs ih => exact ih.add b

theorem removes (h : Script steps old new) (as : List α) :
    Script (List.replicate as.length .remove ++ steps) (as ++ old) new := by
  induction as with
  | nil => exact h
  | cons a as ih => exact ih.remove a

theorem replacement (old new : List α) :
    Script (List.replicate old.length .remove ++ List.replicate new.length .add) old new := by
  have h := (adds nil new).removes old
  rwa [List.append_nil, List.append_nil, List.append_nil] at h

theorem of_append {front : List Step} (hfront : ∀ s ∈ front, s ≠ .keep)
    (h : Script (front ++ steps) old new) :
    ∃ as bs old' new', old = as ++ old' ∧ new = bs ++ new' ∧ as.length = front.count .remove ∧
      bs.length = front.count .add ∧ Script steps old' new' := by
  induction front generalizing old new with
  | nil => exact ⟨[], [], old, new, rfl, rfl, rfl, rfl, h⟩
  | cons s front ih =>
    have hrest := fun s hs => hfront s (List.mem_cons_of_mem _ hs)
    cases h with
    | keep a h => exact absurd rfl (hfront .keep (by simp))
    | remove a h =>
      obtain ⟨as, bs, old', new', rfl, rfl, has, hbs, h⟩ := ih hrest h
      exact ⟨a :: as, bs, old', new', rfl, rfl, by simp [has], by simp [hbs], h⟩
    | add b h =>
      obtain ⟨as, bs, old', new', rfl, rfl, has, hbs, h⟩ := ih hrest h
      exact ⟨as, b :: bs, old', new', rfl, rfl, by simp [has], by simp [hbs], h⟩

end Script

section

variable {α : Type} [DecidableEq α]

/-- A walk from any place: the new lines that were passed by are added first. -/
theorem script_walk (old new : List α) (rows : List (Array Nat)) (j pending : Nat) (owed : List α)
    (howed : owed.length = pending) :
    Script (Alignment.walk old new rows j pending) old (owed ++ new) := by
  fun_induction Alignment.walk old new rows j pending generalizing owed with
  | case1 old b new row rows j pending ih =>
    subst howed
    exact ((ih [] rfl).keep b).adds owed
  | case2 a old b new row rows j pending hne hle ih =>
    have h := ih (owed ++ [b]) (by rw [List.length_append, howed, List.length_singleton])
    rwa [List.append_assoc, List.singleton_append] at h
  | case3 a old b new row rows j pending hne hlt ih => exact (ih owed howed).remove a
  | case4 j old new rows pending =>
    subst howed
    rw [← List.length_append]
    exact Script.replacement old (owed ++ new)

theorem script_alignment (old new : List α) : Script (alignment old new) old new := by
  unfold alignment
  split
  · exact Script.replacement old new
  · exact script_walk old new _ 0 0 [] rfl

end

/-! ## Applying hunks -/

namespace Hunk

/-- The lines after the hunks, where `o` old and `n` new lines lie behind. A hunk does not fit if its
places are not ahead or the lines that it removes do not stand there. -/
def applyFrom (o n : Nat) : List Hunk → List Text → Option (List Text)
  | [], old => some old
  | h :: hs, old =>
    let k := h.oldStart - o
    if o ≤ h.oldStart ∧ h.newStart = n + k ∧ k ≤ old.length ∧ h.removed <+: old.drop k then
      (applyFrom (h.oldStart + h.removed.length) (h.newStart + h.added.length) hs
        (old.drop (k + h.removed.length))).map fun new => old.take k ++ h.added ++ new
    else none

variable {o n : Nat} {hs : List Hunk} {old new : List Text}

/-- What it takes for a first hunk to fit: the lines before it, those that it removes and the rest. -/
theorem applyFrom_cons_eq_some_iff {h : Hunk} :
    applyFrom o n (h :: hs) old = some new ↔
      ∃ same rest new', old = same ++ h.removed ++ rest ∧ new = same ++ h.added ++ new' ∧
        h.oldStart = o + same.length ∧ h.newStart = n + same.length ∧
        applyFrom (h.oldStart + h.removed.length) (h.newStart + h.added.length) hs rest =
          some new' := by
  rw [applyFrom]
  constructor
  · intro happly
    split at happly
    · next hfit =>
      obtain ⟨hle, hstart, hlen, rest, hrest⟩ := hfit
      obtain ⟨new', hnew', rfl⟩ := Option.map_eq_some_iff.mp happly
      have hsame : (old.take (h.oldStart - o)).length = h.oldStart - o := by
        rw [List.length_take]
        omega
      have hdrop : old.drop (h.oldStart - o + h.removed.length) = rest := by
        rw [← List.drop_drop, ← hrest, List.drop_left]
      refine ⟨old.take (h.oldStart - o), rest, new', ?_, rfl, by omega, by omega, ?_⟩
      · rw [List.append_assoc, hrest, List.take_append_drop]
      · rw [← hdrop]
        exact hnew'
    · cases happly
  · rintro ⟨same, rest, new', rfl, rfl, ho, hn, happly⟩
    have hk : h.oldStart - o = same.length := by omega
    have hdrop : (same ++ h.removed ++ rest).drop same.length = h.removed ++ rest := by
      rw [List.append_assoc, List.drop_left]
    rw [hk, if_pos]
    · have htake : (same ++ h.removed ++ rest).take same.length = same := by
        rw [List.append_assoc, List.take_left]
      rw [← List.drop_drop, hdrop, List.drop_left, happly, htake]
      rfl
    · refine ⟨by omega, hn, ?_, ?_⟩
      · rw [List.append_assoc, List.length_append]
        omega
      · rw [hdrop]
        exact List.prefix_append _ _

theorem applyFrom_append_left (same : List Text)
    (h : applyFrom (o + same.length) (n + same.length) hs old = some new) :
    applyFrom o n hs (same ++ old) = some (same ++ new) := by
  cases hs with
  | nil =>
    cases h
    rfl
  | cons k hs =>
    obtain ⟨same', rest, new', rfl, rfl, ho, hn, happly⟩ := applyFrom_cons_eq_some_iff.mp h
    refine applyFrom_cons_eq_some_iff.mpr ⟨same ++ same', rest, new', ?_, ?_, ?_, ?_, happly⟩
    · simp only [List.append_assoc]
    · simp only [List.append_assoc]
    · rw [List.length_append]
      omega
    · rw [List.length_append]
      omega

theorem applyFrom_append_right (same : List Text) (h : applyFrom o n hs old = some new) :
    applyFrom o n hs (old ++ same) = some (new ++ same) := by
  induction hs generalizing o n old new with
  | nil =>
    cases h
    rfl
  | cons k hs ih =>
    obtain ⟨same', rest, new', rfl, rfl, ho, hn, happly⟩ := applyFrom_cons_eq_some_iff.mp h
    refine applyFrom_cons_eq_some_iff.mpr ⟨same', rest ++ same, new' ++ same, ?_, ?_, ho, hn,
      ih happly⟩
    · rw [List.append_assoc]
    · rw [List.append_assoc]

/-- The hunks of a script are gone through from the front: a line that is kept makes no hunk, and a run of
changes makes one. -/
theorem ofSteps_induction {motive : (o n : Nat) → List Step → (old new : List Text) → List Hunk → Prop}
    (nil : ∀ o n, motive o n [] [] [] [])
    (keep : ∀ o n steps old new hs a, motive (o + 1) (n + 1) steps old new hs →
      motive o n (.keep :: steps) (a :: old) (a :: new) hs)
    (run : ∀ o n run steps old new hs as bs, run ≠ [] → (∀ s ∈ run, s ≠ Step.keep) →
      as.length = run.count .remove → bs.length = run.count .add →
      motive (o + as.length) (n + bs.length) steps old new hs →
      motive o n (run ++ steps) (as ++ old) (bs ++ new) (⟨o, n, as, bs⟩ :: hs))
    {steps : List Step} (h : Script steps old new) (o n : Nat) :
    motive o n steps old new (ofSteps o n steps old new) := by
  fun_induction ofSteps o n steps old new with
  | case1 o n old new =>
    cases h
    exact nil o n
  | case2 o n old new rest ih =>
    cases h with
    | keep a h => exact keep o n _ _ _ _ a (ih h)
  | case3 o n old new step rest hstep run' r a ih =>
    have hrun : run' ++ rest.dropWhile (· != .keep) = step :: rest := by
      rw [List.cons_append, List.takeWhile_append_dropWhile]
    have hkeep : ∀ s ∈ run', s ≠ .keep := by
      intro s hs
      rcases List.mem_cons.mp hs with rfl | hs
      · exact hstep
      · simpa using List.mem_takeWhile_imp hs
    rw [← hrun] at h ⊢
    obtain ⟨as, bs, old', new', rfl, rfl, has, hbs, h⟩ := h.of_append hkeep
    have hr : r = as.length := has.symm
    have ha : a = bs.length := hbs.symm
    rw [hr, ha, List.drop_left, List.drop_left] at ih
    rw [hr, ha, List.take_left, List.take_left, List.drop_left, List.drop_left]
    exact run o n run' _ _ _ _ as bs (List.cons_ne_nil _ _) hkeep has hbs (ih h)

/-- The hunks of a script turn the old lines into the new ones. -/
theorem applyFrom_ofSteps {steps : List Step} (h : Script steps old new) (o n : Nat) :
    applyFrom o n (ofSteps o n steps old new) old = some new := by
  refine ofSteps_induction (motive := fun o n _ old new hs => applyFrom o n hs old = some new)
    (fun _ _ => rfl) (fun _ _ _ _ _ _ a ih => applyFrom_append_left [a] ih) ?_ h o n
  intro o n _ _ old new hs as bs _ _ _ _ ih
  exact applyFrom_cons_eq_some_iff.mpr ⟨[], old, new, rfl, rfl, rfl, rfl, ih⟩

end Hunk

/-! ## The hunks between two lists of lines -/

theorem exists_common_front {α : Type} [DecidableEq α] (as bs : List α) :
    ∃ same as' bs', as = same ++ as' ∧ bs = same ++ bs' ∧ same.length = commonLength as bs := by
  fun_induction commonLength as bs with
  | case1 as b bs ih =>
    obtain ⟨same, as', bs', rfl, rfl, hlen⟩ := ih
    exact ⟨b :: same, as', bs', rfl, rfl, by rw [List.length_cons, hlen]⟩
  | case2 a as b bs h => exact ⟨[], a :: as, b :: bs, rfl, rfl, rfl⟩
  | case3 as bs h => exact ⟨[], as, bs, rfl, rfl, rfl⟩

theorem exists_common_back {α : Type} [DecidableEq α] (as bs : List α) :
    ∃ same as' bs', as = as' ++ same ∧ bs = bs' ++ same ∧
      same.length = commonLength as.reverse bs.reverse := by
  obtain ⟨same, as', bs', has, hbs, hlen⟩ := exists_common_front as.reverse bs.reverse
  refine ⟨same.reverse, as'.reverse, bs'.reverse, ?_, ?_, by rw [List.length_reverse, hlen]⟩
  · rw [← List.reverse_append, ← has, List.reverse_reverse]
  · rw [← List.reverse_append, ← hbs, List.reverse_reverse]

/-- What lies between the lines that both lists have in front and those that they have at the end. -/
def middle {α : Type} [DecidableEq α] (old new : List α) : List α × List α :=
  let front := commonLength old new
  let old := old.drop front
  let new := new.drop front
  let back := commonLength old.reverse new.reverse
  (old.take (old.length - back), new.take (new.length - back))

theorem exists_eq_middle {α : Type} [DecidableEq α] (old new : List α) :
    ∃ front back, old = front ++ ((middle old new).1 ++ back) ∧
      new = front ++ ((middle old new).2 ++ back) ∧ front.length = commonLength old new := by
  obtain ⟨front, old', new', hold, hnew, hfront⟩ := exists_common_front old new
  obtain ⟨back, old'', new'', rfl, rfl, hback⟩ := exists_common_back old' new'
  have hdropOld : old.drop front.length = old'' ++ back := by rw [hold, List.drop_left]
  have hdropNew : new.drop front.length = new'' ++ back := by rw [hnew, List.drop_left]
  have hmiddle : middle old new = (old'', new'') := by
    unfold middle
    dsimp only
    rw [← hfront, hdropOld, hdropNew, ← hback, List.length_append, List.length_append,
      Nat.add_sub_cancel, Nat.add_sub_cancel, List.take_left, List.take_left]
  rw [hmiddle]
  exact ⟨front, back, hold, hnew, hfront⟩

theorem hunks_eq_ofSteps (old new : List Text) :
    hunks old new =
      Hunk.ofSteps (commonLength old new) (commonLength old new)
        (alignment (middle old new).1 (middle old new).2) (middle old new).1 (middle old new).2 := rfl

/-- **The hunks between two lists of lines turn the one into the other.** -/
theorem apply_hunks (old new : List Text) : Hunk.applyFrom 0 0 (hunks old new) old = some new := by
  obtain ⟨front, back, hold, hnew, hfront⟩ := exists_eq_middle old new
  have hmid := Hunk.applyFrom_ofSteps (script_alignment (middle old new).1 (middle old new).2)
    front.length front.length
  have hwhole : Hunk.applyFrom 0 0 (hunks old new) (front ++ ((middle old new).1 ++ back)) =
      some (front ++ ((middle old new).2 ++ back)) := by
    refine Hunk.applyFrom_append_left front ?_
    rw [hunks_eq_ofSteps, ← hfront, Nat.zero_add]
    exact Hunk.applyFrom_append_right back hmid
  rwa [← hold, ← hnew] at hwhole

theorem hunks_ne_nil {old new : List Text} (h : old ≠ new) : hunks old new ≠ [] := by
  intro hnil
  have happly := apply_hunks old new
  rw [hnil] at happly
  exact h (Option.some.inj happly)

end Constify
