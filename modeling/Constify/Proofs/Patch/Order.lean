import Constify.Proofs.Patch.Apply

/-!
# Hunks in order and in reverse

* `Hunk.Before h k` : in both lists of lines a line stands between the hunks;
* `pairwise_hunks` : the hunks between two lists of lines stand in this order;
* `Hunk.reverse`, `applyFrom_reverse` : hunks that turn one list into another, applied the other way
  round;
* `mem_of_applyFrom` : the lines of hunks are lines of the two lists.
-/

namespace Constify

namespace Hunk

variable {o n : Nat} {steps : List Step} {hs : List Hunk} {h k : Hunk} {old new : List Text}

/-! ## The order of hunks -/

/-- In both lists of lines at least one line stands between the end of `h` and the start of `k`. -/
def Before (h k : Hunk) : Prop :=
  h.oldStart + h.removed.length < k.oldStart ∧ h.newStart + h.added.length < k.newStart

theorem le_start_of_mem_ofSteps (hk : k ∈ ofSteps o n steps old new) :
    o ≤ k.oldStart ∧ n ≤ k.newStart := by
  fun_induction ofSteps o n steps old new with
  | case1 => cases hk
  | case2 o n old new rest ih =>
    have hle := ih hk
    omega
  | case3 o n old new step rest hstep run r a ih =>
    rcases List.mem_cons.mp hk with rfl | hk
    · exact ⟨le_refl o, le_refl n⟩
    · have hle := ih hk
      omega

/-- Steps that do not start with a change keep the line at the front. -/
theorem lt_start_of_mem_ofSteps (hsteps : ∀ s ∈ steps.head?, s = .keep)
    (hk : k ∈ ofSteps o n steps old new) : o < k.oldStart ∧ n < k.newStart := by
  cases steps with
  | nil =>
    rw [ofSteps] at hk
    cases hk
  | cons s rest =>
    obtain rfl : s = .keep := hsteps s rfl
    rw [ofSteps] at hk
    exact le_start_of_mem_ofSteps hk

theorem pairwise_ofSteps : (ofSteps o n steps old new).Pairwise Before := by
  fun_induction ofSteps o n steps old new with
  | case1 => exact List.Pairwise.nil
  | case2 o n old new rest ih => exact ih
  | case3 o n old new step rest hstep run r a ih =>
    refine List.pairwise_cons.mpr ⟨fun k hk => ?_, ih⟩
    -- the run of changes ends where a line is kept
    have hhead : ∀ s ∈ (rest.dropWhile (· != .keep)).head?, s = .keep := by
      intro s hs
      have hfirst := List.head?_dropWhile_not (· != Step.keep) rest
      rw [hs] at hfirst
      simpa using hfirst
    have hlt := lt_start_of_mem_ofSteps hhead hk
    have hr := List.length_take_le r old
    have ha := List.length_take_le a new
    exact ⟨by dsimp only; omega, by dsimp only; omega⟩

/-! ## Hunks in reverse -/

/-- The hunk that undoes a hunk. -/
def reverse (h : Hunk) : Hunk := ⟨h.newStart, h.oldStart, h.added, h.removed⟩

theorem applyFrom_reverse (happly : applyFrom o n hs old = some new) :
    applyFrom n o (hs.map reverse) new = some old := by
  induction hs generalizing o n old new with
  | nil =>
    cases happly
    rfl
  | cons h hs ih =>
    obtain ⟨same, rest, new', rfl, rfl, ho, hn, happly⟩ := applyFrom_cons_eq_some_iff.mp happly
    exact applyFrom_cons_eq_some_iff.mpr ⟨same, new', rest, rfl, rfl, hn, ho, ih happly⟩

/-! ## The lines of hunks -/

theorem mem_of_applyFrom (happly : applyFrom o n hs old = some new) (hk : k ∈ hs) :
    (∀ line ∈ k.removed, line ∈ old) ∧ ∀ line ∈ k.added, line ∈ new := by
  induction hs generalizing o n old new with
  | nil => cases hk
  | cons h hs ih =>
    obtain ⟨same, rest, new', rfl, rfl, -, -, happly⟩ := applyFrom_cons_eq_some_iff.mp happly
    rcases List.mem_cons.mp hk with rfl | hk
    · exact ⟨fun line hline => by simp [hline], fun line hline => by simp [hline]⟩
    · obtain ⟨hold, hnew⟩ := ih happly hk
      exact ⟨fun line hline => List.mem_append_right _ (hold line hline),
        fun line hline => List.mem_append_right _ (hnew line hline)⟩

end Hunk

theorem pairwise_hunks (old new : List Text) : (hunks old new).Pairwise Hunk.Before :=
  Hunk.pairwise_ofSteps

end Constify
