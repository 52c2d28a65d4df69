import Constify.Text.Basic

/-!
# Replacing every occurrence

* `Text.gaps p t` : the stretches of `t` between the occurrences of `p`, taken from the left and
  without overlap;
* `Text.replaceAll p q t` : the gaps joined by `q`, `intercalate_gaps` being the case `q = p`;
* `Text.countOf p t` : how many occurrences `replaceAll` replaces.
-/

namespace Constify.Text

/-- The stretches of a text between the occurrences of `p`, where the first `skip` characters
belong to an occurrence that has already been found. -/
def gapsFrom (p : Text) : Nat → Text → List Text
  | _, [] => [[]]
  | skip + 1, _ :: cs => gapsFrom p skip cs
  | 0, c :: cs =>
    if p.isPrefixOf (c :: cs) then [] :: gapsFrom p (p.length - 1) cs
    else consHead c (gapsFrom p 0 cs)

/-- The stretches of a text between the occurrences of `p`, taken from the left without overlap. -/
def gaps (p t : Text) : List Text := gapsFrom p 0 t

def replaceAll (p q t : Text) : Text := q.intercalate (gaps p t)

/-- How many occurrences of `p` the text has, taken from the left without overlap. -/
def countOf (p t : Text) : Nat := (gaps p t).length - 1

theorem gapsFrom_ne_nil (p : Text) (skip : Nat) (t : Text) : gapsFrom p skip t ≠ [] := by
  induction t generalizing skip with
  | nil => cases skip <;> simp [gapsFrom]
  | cons c cs ih =>
    cases skip with
    | zero => rw [gapsFrom]; split <;> simp
    | succ n => rw [gapsFrom]; exact ih n

theorem gapsFrom_eq_drop (p : Text) (skip : Nat) (t : Text) :
    gapsFrom p skip t = gapsFrom p 0 (t.drop skip) := by
  induction skip generalizing t with
  | zero => rfl
  | succ n ih =>
    cases t with
    | nil => rfl
    | cons c cs => rw [gapsFrom, ih, List.drop_succ_cons]

/-- Joining the gaps with the text that was looked for gives the text back. -/
theorem intercalate_gaps {p : Text} (hp : p ≠ []) (t : Text) : p.intercalate (gaps p t) = t := by
  unfold gaps
  induction ht : t.length using Nat.strongRecOn generalizing t with
  | ind n ih =>
    subst ht
    cases t with
    | nil => rfl
    | cons c cs =>
      rw [gapsFrom]
      split
      · next h =>
        obtain ⟨r, hr⟩ := List.isPrefixOf_iff_prefix.mp h
        rw [gapsFrom_eq_drop]
        have hdrop : cs.drop (p.length - 1) = r := by
          cases p with
          | nil => exact absurd rfl hp
          | cons x xs =>
            simp only [List.cons_append, List.cons.injEq] at hr
            simp [← hr.2]
        rw [hdrop]
        have hlt : r.length < (c :: cs).length := by
          rw [← hr, List.length_append]
          have := List.length_pos_iff.mpr hp
          omega
        have := ih r.length hlt r rfl
        cases hg : gapsFrom p 0 r with
        | nil => exact absurd hg (gapsFrom_ne_nil p 0 r)
        | cons g gs =>
          rw [hg] at this
          rw [List.intercalate_cons_cons, this, ← hr]
          rfl
      · have := ih cs.length (by simp) cs rfl
        cases hg : gapsFrom p 0 cs with
        | nil => exact absurd hg (gapsFrom_ne_nil p 0 cs)
        | cons g gs =>
          rw [hg] at this
          cases gs with
          | nil => simpa [consHead] using this
          | cons g' gs =>
            rw [List.intercalate_cons_cons] at this
            rw [consHead, List.intercalate_cons_cons, ← this]
            rfl

end Constify.Text
