import Mathlib.Tactic
import Constify.Text.Replace

/-!
# Occurrences of a text in another

* `infix_append_cons_iff`, `infix_intercalate` : a text without the separator lies within one piece;
* `Apart p q` : in no text does an occurrence of `p` share a character with an occurrence of `q`;
* `Apart.intro` : it is enough that `q` is no part of `p`, that the last character of `p` is not an
  earlier one of `q`, and that `p` cannot start inside `q`;
* `gaps_induction` : the recursion of `gaps` on what follows an occurrence;
* `not_infix_of_mem_gaps` : no gap holds the text that was looked for;
* `not_infix_replaceAll` : a replacement brings no occurrence of a text apart from it;
* `count_replaceAll` : what a replacement does to the number of times a character stands in a text.
-/

namespace Constify.Text

/-! ## Pieces between separators -/

theorem infix_cons_of_not_mem {w y : Text} {c : Char} (hc : c ∉ w) : w <:+: c :: y ↔ w <:+: y := by
  rw [List.infix_cons_iff]
  refine or_iff_right_of_imp fun h => ?_
  cases w with
  | nil => exact List.nil_infix
  | cons d w =>
    obtain ⟨rfl, -⟩ := List.cons_prefix_cons.mp h
    simp at hc

theorem infix_append_cons_iff {w x y : Text} {c : Char} (hc : c ∉ w) :
    w <:+: x ++ c :: y ↔ w <:+: x ∨ w <:+: y := by
  constructor
  · intro h
    rcases List.infix_append_iff.mp h with h | h | ⟨l, r, rfl, hl, hr⟩
    · exact Or.inl h
    · exact Or.inr ((infix_cons_of_not_mem hc).mp h)
    · cases r with
      | nil => simpa using Or.inl hl.isInfix
      | cons d r =>
        obtain ⟨rfl, -⟩ := List.cons_prefix_cons.mp hr
        simp at hc
  · rintro (h | h)
    · exact List.infix_append_of_infix_left h
    · exact List.infix_append_of_infix_right (List.infix_cons h)

theorem infix_intercalate {s g : Text} {gs : List Text} (hg : g ∈ gs) : g <:+: s.intercalate gs := by
  induction gs with
  | nil => simp at hg
  | cons h hs ih =>
    cases hs with
    | nil =>
      rw [List.mem_singleton] at hg
      rw [hg, List.intercalate_singleton]
    | cons h' hs =>
      rw [List.intercalate_cons_cons]
      rcases List.mem_cons.mp hg with rfl | hg
      · rw [List.append_assoc]
        exact List.infix_append_left
      · exact List.infix_append_of_infix_right (ih hg)

/-- A text without the separator that stands in a row of pieces stands in one of them. -/
theorem exists_infix_of_infix_intercalate {w : Text} {c : Char} (hc : c ∉ w) {gs : List Text}
    (hgs : gs ≠ []) (h : w <:+: [c].intercalate gs) : ∃ g ∈ gs, w <:+: g := by
  induction gs with
  | nil => exact absurd rfl hgs
  | cons g gs ih =>
    cases gs with
    | nil => exact ⟨g, by simp, by simpa using h⟩
    | cons g' gs =>
      rw [List.intercalate_cons_cons, List.append_assoc, List.singleton_append] at h
      rcases (infix_append_cons_iff hc).mp h with h | h
      · exact ⟨g, by simp, h⟩
      · obtain ⟨k, hk, hw⟩ := ih (by simp) h
        exact ⟨k, List.mem_cons_of_mem _ hk, hw⟩

/-! ## Texts that never overlap -/

/-- In no text does an occurrence of `p` share a character with an occurrence of `q`. -/
def Apart (p q : Text) : Prop :=
  ∀ a b a' b' : Text, a ++ p ++ b = a' ++ q ++ b' →
    a.length + p.length ≤ a'.length ∨ a'.length + q.length ≤ a.length

theorem Apart.intro {p q : Text} (hin : ¬ q <:+: p) (hlast : ∀ c ∈ p.getLast?, c ∉ q.dropLast)
    (hstart : ∀ s, s ≠ [] → s <:+ q → ∀ b b', s ++ b' ≠ p ++ b) : Apart p q := by
  intro a b a' b' h
  by_contra hlen
  push Not at hlen
  obtain ⟨hl, hr⟩ := hlen
  rw [List.append_assoc, List.append_assoc] at h
  rcases List.append_eq_append_iff.mp h with ⟨m, rfl, hm⟩ | ⟨m, rfl, hm⟩
  · -- `p` starts before `q` or with it
    rcases List.append_eq_append_iff.mp hm with ⟨x, rfl, -⟩ | ⟨x, rfl, hx⟩
    · simp at hl
    · rcases List.append_eq_append_iff.mp hx with ⟨y, rfl, -⟩ | ⟨y, rfl, -⟩
      · exact hin ⟨m, y, by simp⟩
      · have hxne : x ≠ [] := by
          rintro rfl
          simp at hl
        cases y with
        | nil => exact hin ⟨m, [], by simp⟩
        | cons c y =>
          apply hlast (x.getLast hxne)
          · simp [List.getLast?_append, List.getLast?_eq_some_getLast hxne]
          · rw [List.dropLast_append_of_ne_nil (by simp)]
            exact List.mem_append_left _ (List.getLast_mem hxne)
  · -- `p` starts inside `q`
    rcases List.append_eq_append_iff.mp hm with ⟨x, rfl, -⟩ | ⟨x, rfl, hx⟩
    · simp at hr
    · refine hstart x ?_ (List.suffix_append m x) b b' hx.symm
      rintro rfl
      simp at hr

theorem exists_eq_append_of_length_le {a b c d : Text} (h : a ++ b = c ++ d)
    (hlen : a.length ≤ c.length) : ∃ k, c = a ++ k ∧ b = k ++ d := by
  rcases List.append_eq_append_iff.mp h with ⟨k, hc, hb⟩ | ⟨k, rfl, rfl⟩
  · exact ⟨k, hc, hb⟩
  · have hk : k = [] := by simpa using hlen
    subst hk
    exact ⟨[], by simp, rfl⟩

/-- A text that is apart from `q` and stands in none of the pieces stands nowhere in the pieces
joined by `q`. -/
theorem not_infix_intercalate {p q : Text} (hpq : Apart p q) {gs : List Text} (hne : gs ≠ [])
    (hgs : ∀ g ∈ gs, ¬ p <:+: g) : ¬ p <:+: q.intercalate gs := by
  induction gs with
  | nil => exact absurd rfl hne
  | cons g gs ih =>
    cases gs with
    | nil => simpa using hgs g (by simp)
    | cons g' gs =>
      rw [List.intercalate_cons_cons]
      rintro ⟨a, b, h⟩
      rcases hpq _ _ _ _ h with hlen | hlen
      · rw [List.append_assoc g] at h
        obtain ⟨k, rfl, -⟩ := exists_eq_append_of_length_le h (by simpa using hlen)
        exact hgs _ (by simp) ⟨a, k, rfl⟩
      · rw [List.append_assoc a] at h
        obtain ⟨k, rfl, hk⟩ := exists_eq_append_of_length_le h.symm (by simpa using hlen)
        refine ih (by simp) (fun g hg => hgs g (List.mem_cons_of_mem _ hg)) ⟨k, b, ?_⟩
        rw [hk, List.append_assoc]

/-! ## The gaps between occurrences -/

theorem gaps_append_self {p : Text} (hp : p ≠ []) (r : Text) : gaps p (p ++ r) = [] :: gaps p r := by
  cases p with
  | nil => exact absurd rfl hp
  | cons x xs =>
    rw [gaps, List.cons_append, gapsFrom, if_pos, gapsFrom_eq_drop]
    · simp [gaps]
    · exact List.isPrefixOf_iff_prefix.mpr ⟨r, rfl⟩

theorem gaps_cons {p : Text} {c : Char} {cs : Text} (h : ¬ p <+: c :: cs) :
    gaps p (c :: cs) = consHead c (gaps p cs) := by
  rw [gaps, gapsFrom, if_neg (by rwa [List.isPrefixOf_iff_prefix])]
  rfl

/-- A text is gone through from the left: an occurrence is passed as a whole, and a character that
starts none alone. -/
theorem gaps_induction {p : Text} (hp : p ≠ []) {motive : Text → Prop} (nil : motive [])
    (found : ∀ r, motive r → motive (p ++ r))
    (passed : ∀ c cs, ¬ p <+: c :: cs → motive cs → motive (c :: cs)) (t : Text) : motive t := by
  induction ht : t.length using Nat.strongRecOn generalizing t with
  | ind n ih =>
    subst ht
    cases t with
    | nil => exact nil
    | cons c cs =>
      by_cases h : p <+: c :: cs
      · obtain ⟨r, hr⟩ := h
        rw [← hr]
        refine found r (ih r.length ?_ r rfl)
        rw [← hr, List.length_append]
        have := List.length_pos_iff.mpr hp
        omega
      · exact passed c cs h (ih cs.length (by simp) cs rfl)

theorem gaps_ne_nil (p t : Text) : gaps p t ≠ [] := gapsFrom_ne_nil p 0 t

theorem prefix_of_gaps_eq_cons {p : Text} (hp : p ≠ []) {t g : Text} {gs : List Text}
    (h : gaps p t = g :: gs) : g <+: t := by
  have ht := intercalate_gaps hp t
  rw [h] at ht
  cases gs with
  | nil => rw [← ht, List.intercalate_singleton]
  | cons g' gs =>
    rw [List.intercalate_cons_cons, List.append_assoc] at ht
    exact ⟨_, ht⟩

theorem not_infix_of_mem_gaps {p : Text} (hp : p ≠ []) {t g : Text} (hg : g ∈ gaps p t) :
    ¬ p <:+: g := by
  induction t using gaps_induction hp generalizing g with
  | nil =>
    simp only [gaps, gapsFrom, List.mem_singleton] at hg
    rw [hg, List.infix_nil]
    exact hp
  | found r ih =>
    rw [gaps_append_self hp] at hg
    rcases List.mem_cons.mp hg with rfl | hg
    · rw [List.infix_nil]
      exact hp
    · exact ih hg
  | passed c cs hc ih =>
    rw [gaps_cons hc] at hg
    cases hgs : gaps p cs with
    | nil => exact absurd hgs (gaps_ne_nil p cs)
    | cons k ks =>
      rw [hgs] at hg ih
      rcases List.mem_cons.mp hg with rfl | hg
      · intro hinf
        rcases List.infix_cons_iff.mp hinf with h | h
        · obtain ⟨u, rfl⟩ := prefix_of_gaps_eq_cons hp hgs
          exact hc (h.trans (List.prefix_append (c :: k) u))
        · exact ih (by simp) h
      · exact ih (List.mem_cons_of_mem _ hg)

theorem infix_of_mem_gaps {p : Text} (hp : p ≠ []) {t g : Text} (hg : g ∈ gaps p t) : g <:+: t := by
  rw [← intercalate_gaps hp t]
  exact infix_intercalate hg

/-! ## Replacing -/

@[simp] theorem replaceAll_nil (p q : Text) : replaceAll p q [] = [] := rfl

theorem replaceAll_append_self {p : Text} (hp : p ≠ []) (q r : Text) :
    replaceAll p q (p ++ r) = q ++ replaceAll p q r := by
  rw [replaceAll, gaps_append_self hp, replaceAll]
  obtain ⟨g, gs, hgs⟩ := List.exists_cons_of_ne_nil (gaps_ne_nil p r)
  rw [hgs, List.intercalate_cons_cons, List.nil_append]

theorem replaceAll_cons {p : Text} {c : Char} {cs : Text} (h : ¬ p <+: c :: cs) (q : Text) :
    replaceAll p q (c :: cs) = c :: replaceAll p q cs := by
  rw [replaceAll, gaps_cons h, replaceAll]
  obtain ⟨g, gs, hgs⟩ := List.exists_cons_of_ne_nil (gaps_ne_nil p cs)
  rw [hgs, consHead]
  cases gs with
  | nil => rw [List.intercalate_singleton, List.intercalate_singleton]
  | cons g' gs =>
    rw [List.intercalate_cons_cons, List.intercalate_cons_cons]
    rfl

theorem prefix_of_prefix_append_cons {p a b : Text} {x : Char} (hx : x ∉ p) (h : p <+: a ++ x :: b) :
    p <+: a := by
  rcases List.prefix_or_prefix_of_prefix h (List.prefix_append a (x :: b)) with h | ⟨u, rfl⟩
  · exact h
  · cases u with
    | nil => exact ⟨[], by simp⟩
    | cons d u =>
      have hd := (List.prefix_append_right_inj a).mp h
      obtain ⟨rfl, -⟩ := List.cons_prefix_cons.mp hd
      simp at hx

theorem replaceAll_append_cons {p : Text} (hp : p ≠ []) (q : Text) {x : Char} (hx : x ∉ p)
    (a b : Text) : replaceAll p q (a ++ x :: b) = replaceAll p q a ++ x :: replaceAll p q b := by
  induction a using gaps_induction hp with
  | nil =>
    rw [replaceAll_nil, List.nil_append, List.nil_append, replaceAll_cons]
    exact fun h => hp (List.prefix_nil.mp (prefix_of_prefix_append_cons (a := []) hx h))
  | found r ih => rw [List.append_assoc, replaceAll_append_self hp, replaceAll_append_self hp, ih,
      List.append_assoc]
  | passed c cs h ih =>
    rw [List.cons_append, replaceAll_cons h, replaceAll_cons, ih, List.cons_append]
    exact fun h' => h (prefix_of_prefix_append_cons (a := c :: cs) hx h')

theorem eq_nil_of_replaceAll_eq_nil {p q t : Text} (hp : p ≠ []) (hq : q ≠ [])
    (h : replaceAll p q t = []) : t = [] := by
  induction t using gaps_induction hp with
  | nil => rfl
  | found r ih =>
    rw [replaceAll_append_self hp] at h
    exact absurd (List.append_eq_nil_iff.mp h).1 hq
  | passed c cs hc ih =>
    rw [replaceAll_cons hc] at h
    cases h

theorem replaceAll_of_countOf_eq_zero {p : Text} (hp : p ≠ []) (q : Text) {t : Text}
    (h : countOf p t = 0) : replaceAll p q t = t := by
  have ht := intercalate_gaps hp t
  obtain ⟨g, gs, hgs⟩ := List.exists_cons_of_ne_nil (gaps_ne_nil p t)
  have hnil : gs = [] := by simpa [countOf, hgs] using h
  rw [hgs, hnil, List.intercalate_singleton] at ht
  rw [replaceAll, hgs, hnil, List.intercalate_singleton, ht]

theorem infix_replaceAll {p t : Text} (q : Text) (h : countOf p t ≠ 0) : q <:+: replaceAll p q t := by
  obtain ⟨g, gs, hgs⟩ := List.exists_cons_of_ne_nil (gaps_ne_nil p t)
  obtain ⟨g', gs, rfl⟩ := List.exists_cons_of_ne_nil (l := gs) (by
    rintro rfl
    simp [countOf, hgs] at h)
  rw [replaceAll, hgs, List.intercalate_cons_cons]
  exact ⟨g, _, rfl⟩

theorem gaps_of_not_infix {p t : Text} (h : ¬ p <:+: t) : gaps p t = [t] := by
  induction t with
  | nil => rfl
  | cons c cs ih =>
    rw [List.infix_cons_iff, not_or] at h
    rw [gaps_cons h.1, ih h.2]
    rfl

theorem replaceAll_of_not_infix {p t : Text} (q : Text) (h : ¬ p <:+: t) : replaceAll p q t = t := by
  rw [replaceAll, gaps_of_not_infix h, List.intercalate_singleton]

theorem countOf_of_not_infix {p t : Text} (h : ¬ p <:+: t) : countOf p t = 0 := by
  rw [countOf, gaps_of_not_infix h]
  rfl

/-- A replacement leaves no occurrence of what was looked for, if that is apart from what is put in
its place. -/
theorem not_infix_replaceAll_self {p q : Text} (hp : p ≠ []) (hpq : Apart p q) (t : Text) :
    ¬ p <:+: replaceAll p q t :=
  not_infix_intercalate hpq (gaps_ne_nil p t) fun _ hg => not_infix_of_mem_gaps hp hg

/-- A replacement brings no occurrence of a text that is apart from what is put in. -/
theorem not_infix_replaceAll {p q w t : Text} (hp : p ≠ []) (hwq : Apart w q) (hw : ¬ w <:+: t) :
    ¬ w <:+: replaceAll p q t :=
  not_infix_intercalate hwq (gaps_ne_nil p t) fun _ hg h =>
    hw (h.trans (infix_of_mem_gaps hp hg))

theorem count_intercalate (x : Char) (s : Text) (gs : List Text) :
    (s.intercalate gs).count x = (gs.map (List.count x)).sum + (gs.length - 1) * s.count x := by
  induction gs with
  | nil => simp
  | cons g gs ih =>
    cases gs with
    | nil => simp
    | cons g' gs =>
      rw [List.intercalate_cons_cons, List.count_append, List.count_append, ih]
      simp only [List.map_cons, List.sum_cons, List.length_cons, Nat.add_sub_cancel]
      ring

/-- What a replacement does to the number of times that a character stands in a text. -/
theorem count_replaceAll {p : Text} (hp : p ≠ []) (q t : Text) (x : Char) :
    (replaceAll p q t).count x + countOf p t * p.count x =
      t.count x + countOf p t * q.count x := by
  have ht : t.count x = (p.intercalate (gaps p t)).count x := by rw [intercalate_gaps hp]
  rw [ht, replaceAll, count_intercalate, count_intercalate, countOf]
  ring

end Constify.Text
