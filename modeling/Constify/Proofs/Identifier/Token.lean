import Mathlib.Tactic
import Constify.Identifier

/-!
# Whole tokens

* `StandsAlone name t` : `name` stands in `t` between characters that belong to no identifier;
* `mentions_iff` : this is what `mentions` looks for;
* `StandsAlone.of_infix` : it is enough that `name` stands there with such a character on each side;
* `eq_of_append_eq_append` : a text starts with one whole identifier.
-/

namespace Constify

/-- `name` stands in the text with no identifier character directly before or after it. -/
def StandsAlone (name t : Text) : Prop :=
  ∃ a b, t = a ++ name ++ b ∧ (∀ c ∈ a.getLast?, isIdentChar c = false) ∧
    ∀ c ∈ b.head?, isIdentChar c = false

theorem StandsAlone.of_infix {name t : Text} {c d : Char} (hc : isIdentChar c = false)
    (hd : isIdentChar d = false) (h : c :: name ++ [d] <:+: t) : StandsAlone name t := by
  obtain ⟨a, b, rfl⟩ := h
  refine ⟨a ++ [c], d :: b, by simp, fun x hx => ?_, fun x hx => ?_⟩
  · rw [List.getLast?_concat, Option.mem_some_iff] at hx
    rw [← hx, hc]
  · rw [List.head?_cons, Option.mem_some_iff] at hx
    rw [← hx, hd]

theorem startsFree_iff {t : Text} : startsFree t = true ↔ ∀ c ∈ t.head?, isIdentChar c = false := by
  cases t with
  | nil => simp [startsFree]
  | cons c cs => simp [startsFree]

/-- The character before the text counts where `name` stands at the front. -/
theorem mentionsFrom_iff {name t : Text} {free : Bool} :
    mentionsFrom name free t = true ↔
      ∃ a b, t = a ++ name ++ b ∧ (a = [] → free = true) ∧
        (∀ c ∈ a.getLast?, isIdentChar c = false) ∧ ∀ c ∈ b.head?, isIdentChar c = false := by
  induction t generalizing free with
  | nil =>
    rw [mentionsFrom, Bool.and_eq_true, List.isEmpty_iff]
    constructor
    · rintro ⟨hfree, rfl⟩
      exact ⟨[], [], rfl, fun _ => hfree, by simp, by simp⟩
    · rintro ⟨a, b, h, hfree, -⟩
      obtain ⟨hfront, rfl⟩ := List.append_eq_nil_iff.mp h.symm
      obtain ⟨rfl, rfl⟩ := List.append_eq_nil_iff.mp hfront
      exact ⟨hfree rfl, rfl⟩
  | cons c cs ih =>
    rw [mentionsFrom, Bool.or_eq_true, Bool.and_eq_true, Option.any_eq_true, ih]
    constructor
    · rintro (⟨hfree, r, hr, hstart⟩ | ⟨a, b, rfl, hfirst, hlast, hhead⟩)
      · exact ⟨[], r, Text.after?_eq_some_iff.mp hr, fun _ => hfree, by simp, startsFree_iff.mp hstart⟩
      · refine ⟨c :: a, b, rfl, by simp, fun x hx => ?_, hhead⟩
        cases a with
        | nil =>
          obtain rfl : c = x := by simpa using hx
          simpa using hfirst rfl
        | cons d a =>
          rw [List.getLast?_cons_cons] at hx
          exact hlast x hx
    · rintro ⟨a, b, h, hfree, hlast, hhead⟩
      cases a with
      | nil =>
        exact Or.inl ⟨hfree rfl, b, Text.after?_eq_some_iff.mpr h, startsFree_iff.mpr hhead⟩
      | cons d a =>
        obtain ⟨rfl, rfl⟩ := List.cons.inj h
        refine Or.inr ⟨a, b, rfl, ?_, fun x hx => hlast x ?_, hhead⟩
        · rintro rfl
          rw [hlast c (by simp)]
          rfl
        · cases a with
          | nil => cases hx
          | cons e a => rwa [List.getLast?_cons_cons]

theorem mentions_iff {name t : Text} : mentions name t = true ↔ StandsAlone name t := by
  rw [mentions, mentionsFrom_iff, StandsAlone]
  simp only [implies_true, true_and]

/-! ## The identifier at the front -/

theorem identRun_append_of_isIdentifier {name : Text} (h : isIdentifier name = true) (t : Text) :
    identRun (name ++ t) = name ++ identRun t :=
  List.takeWhile_append_of_pos fun _ hc => isIdentChar_of_mem h hc

theorem identRun_of_startsFree {t : Text} (h : startsFree t = true) : identRun t = [] := by
  cases t with
  | nil => rfl
  | cons c t => exact List.takeWhile_cons_of_neg (by simpa using startsFree_iff.mp h c rfl)

theorem identRun_append {name t : Text} (h : isIdentifier name = true)
    (ht : ∀ c ∈ t.head?, isIdentChar c = false) : identRun (name ++ t) = name := by
  rw [identRun_append_of_isIdentifier h, identRun_of_startsFree (startsFree_iff.mpr ht), List.append_nil]

/-- Two identifiers at the front of a text are the same if no identifier character follows either. -/
theorem eq_of_append_eq_append {name other t u : Text} (hname : isIdentifier name = true)
    (hother : isIdentifier other = true) (ht : ∀ c ∈ t.head?, isIdentChar c = false)
    (hu : ∀ c ∈ u.head?, isIdentChar c = false) (h : name ++ t = other ++ u) : name = other := by
  rw [← identRun_append hname ht, h, identRun_append hother hu]

end Constify
