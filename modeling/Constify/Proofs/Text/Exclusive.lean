import Constify.Proofs.Text.Occurrence

/-!
# Texts that stand at one place or apart

* `Exclusive p q` : in every text an occurrence of `p` and one of `q` are the same or share no
  character (`Exclusive.intro`, `Exclusive.apart`);
* `replaceAll_append`, `countOf_append` : a front in which no occurrence starts is passed as it is;
* `occurrences p t` : at how many places of `t` the text `p` stands;
* `countOf_eq_occurrences` : a text that does not overlap with itself is replaced at all of them.
-/

namespace Constify.Text

/-- In every text an occurrence of `p` and one of `q` are the same or share no character. -/
def Exclusive (p q : Text) : Prop :=
  ∀ a b a' b' : Text, a ++ p ++ b = a' ++ q ++ b' →
    (a = a' ∧ p = q) ∨ a.length + p.length ≤ a'.length ∨ a'.length + q.length ≤ a.length

/-- If `q` cannot start inside `p`, then it starts behind an occurrence of `p` that starts before
it. -/
theorem length_le_of_suffix_append_ne {p q a b a' b' : Text}
    (hpq : ∀ v, v ≠ [] → v <:+ p → v ≠ p → ∀ x y, v ++ x ≠ q ++ y)
    (h : a ++ p ++ b = a' ++ q ++ b') (hlt : a.length < a'.length) :
    a.length + p.length ≤ a'.length := by
  by_contra hle
  rw [List.append_assoc, List.append_assoc] at h
  obtain ⟨k, rfl, hk⟩ := exists_eq_append_of_length_le h hlt.le
  rw [List.length_append] at hlt hle
  obtain ⟨v, rfl, hv⟩ := exists_eq_append_of_length_le hk.symm (by omega)
  refine hpq v ?_ (List.suffix_append k v) ?_ b b' hv.symm
  · rintro rfl
    simp at hle
  · intro hself
    have := congrArg List.length hself
    rw [List.length_append] at this
    omega

theorem Exclusive.intro {p q : Text} (hpq : ∀ v, v ≠ [] → v <:+ p → v ≠ p → ∀ x y, v ++ x ≠ q ++ y)
    (hqp : ∀ v, v ≠ [] → v <:+ q → v ≠ q → ∀ x y, v ++ x ≠ p ++ y)
    (hsame : ∀ x y, p ++ x = q ++ y → p = q) : Exclusive p q := by
  intro a b a' b' h
  rcases lt_trichotomy a.length a'.length with hlt | heq | hlt
  · exact Or.inr (Or.inl (length_le_of_suffix_append_ne hpq h hlt))
  · rw [List.append_assoc, List.append_assoc] at h
    obtain ⟨rfl, hrest⟩ := List.append_inj h heq
    exact Or.inl ⟨rfl, hsame _ _ hrest⟩
  · exact Or.inr (Or.inr (length_le_of_suffix_append_ne hqp h.symm hlt))

theorem Exclusive.apart {p q : Text} (h : Exclusive p q) (hne : p ≠ q) : Apart p q :=
  fun a b a' b' heq => (h a b a' b' heq).resolve_left fun hsame => hne hsame.2

theorem Apart.exclusive {p q : Text} (h : Apart p q) : Exclusive p q :=
  fun a b a' b' heq => Or.inr (h a b a' b' heq)

/-- An occurrence at the front ends before one that starts later. -/
theorem Exclusive.length_le {p q x y z : Text} (h : Exclusive p q) (hx : x ≠ [])
    (heq : p ++ y = x ++ q ++ z) : p.length ≤ x.length := by
  have hpos := List.length_pos_iff.mpr hx
  rcases h [] y x z (by simpa using heq) with ⟨hnil, -⟩ | hle | hle
  · exact absurd hnil.symm hx
  · simpa using hle
  · rw [List.length_nil] at hle
    omega

/-- No occurrence of a text starts in another that is apart from it. -/
theorem Apart.not_prefix_append {p u v x : Text} (h : Apart p u) (hp : p ≠ []) (hv : v ≠ [])
    (hsuffix : v <:+ u) : ¬ p <+: v ++ x := by
  rintro ⟨y, hy⟩
  obtain ⟨k, rfl⟩ := hsuffix
  have hlen := h k y [] x (by rw [List.append_assoc, hy, List.nil_append, List.append_assoc])
  have hppos := List.length_pos_iff.mpr hp
  have hvpos := List.length_pos_iff.mpr hv
  simp only [List.length_nil, List.length_append] at hlen
  omega

/-! ## Passing a front -/

theorem countOf_nil (p : Text) : countOf p [] = 0 := rfl

theorem countOf_append_self {p : Text} (hp : p ≠ []) (r : Text) :
    countOf p (p ++ r) = countOf p r + 1 := by
  have hpos := List.length_pos_iff.mpr (gaps_ne_nil p r)
  rw [countOf, countOf, gaps_append_self hp, List.length_cons]
  omega

theorem countOf_cons {p : Text} {c : Char} {cs : Text} (h : ¬ p <+: c :: cs) :
    countOf p (c :: cs) = countOf p cs := by
  obtain ⟨g, gs, hgs⟩ := List.exists_cons_of_ne_nil (gaps_ne_nil p cs)
  rw [countOf, countOf, gaps_cons h, hgs]
  rfl

/-- A character that does not stand in `p` keeps the occurrences on its two sides apart. -/
theorem countOf_append_cons {p : Text} (hp : p ≠ []) {x : Char} (hx : x ∉ p) (a b : Text) :
    countOf p (a ++ x :: b) = countOf p a + countOf p b := by
  induction a using gaps_induction hp with
  | nil =>
    rw [countOf_nil, Nat.zero_add, List.nil_append, countOf_cons]
    exact fun h => hp (List.prefix_nil.mp (prefix_of_prefix_append_cons (a := []) hx h))
  | found r ih =>
    rw [List.append_assoc, countOf_append_self hp, countOf_append_self hp, ih]
    omega
  | passed c cs h ih =>
    rw [List.cons_append, countOf_cons h, countOf_cons, ih]
    exact fun h' => h (prefix_of_prefix_append_cons (a := c :: cs) hx h')

section

variable {p u x : Text} (h : ∀ v, v ≠ [] → v <:+ u → ¬ p <+: v ++ x)

include h

/-- A front in which no occurrence of `p` starts is gone through character by character. -/
theorem front_induction {motive : Text → Prop} (nil : motive [])
    (cons : ∀ c v, ¬ p <+: c :: (v ++ x) → motive v → motive (c :: v)) : motive u := by
  induction u with
  | nil => exact nil
  | cons c u ih =>
    exact cons c u (h (c :: u) (by simp) (List.suffix_refl _))
      (ih fun v hv hsuffix => h v hv (hsuffix.trans (List.suffix_cons c u)))

theorem replaceAll_append (q : Text) : replaceAll p q (u ++ x) = u ++ replaceAll p q x := by
  refine front_induction (motive := fun u => replaceAll p q (u ++ x) = u ++ replaceAll p q x) h rfl
    fun c v hc ih => ?_
  rw [List.cons_append, replaceAll_cons hc, ih, List.cons_append]

theorem countOf_append : countOf p (u ++ x) = countOf p x := by
  refine front_induction (motive := fun u => countOf p (u ++ x) = countOf p x) h rfl
    fun c v hc ih => ?_
  rw [List.cons_append, countOf_cons hc, ih]

end

/-! ## Counting places -/

/-- At how many places of a text `p` stands. -/
def occurrences (p t : Text) : Nat := t.tails.countP p.isPrefixOf

theorem occurrences_nil {p : Text} (hp : p ≠ []) : occurrences p [] = 0 := by
  cases p with
  | nil => exact absurd rfl hp
  | cons c p => rfl

theorem occurrences_cons (p : Text) (c : Char) (cs : Text) :
    occurrences p (c :: cs) = occurrences p cs + if p <+: c :: cs then 1 else 0 := by
  rw [occurrences, List.tails_cons, List.countP_cons]
  simp only [List.isPrefixOf_iff_prefix]
  rfl

theorem occurrences_append {p u x : Text} (h : ∀ v, v ≠ [] → v <:+ u → ¬ p <+: v ++ x) :
    occurrences p (u ++ x) = occurrences p x := by
  refine front_induction (motive := fun u => occurrences p (u ++ x) = occurrences p x) h rfl
    fun c v hc ih => ?_
  rw [List.cons_append, occurrences_cons, if_neg hc, ih, Nat.add_zero]

/-- A text that does not overlap with itself is replaced wherever it stands. -/
theorem countOf_eq_occurrences {p : Text} (hp : p ≠ []) (hself : Exclusive p p) (t : Text) :
    countOf p t = occurrences p t := by
  induction t using gaps_induction hp with
  | nil => rw [countOf_nil, occurrences_nil hp]
  | found r ih =>
    obtain ⟨c, u, rfl⟩ := List.exists_cons_of_ne_nil hp
    have hpass : ∀ v, v ≠ [] → v <:+ u → ¬ c :: u <+: v ++ r := by
      rintro v hv ⟨k, rfl⟩ ⟨y, hy⟩
      have hle := hself.length_le (x := c :: k) (y := r) (z := y) (by simp)
        (by rw [List.append_assoc, hy]; simp)
      have hvpos := List.length_pos_iff.mpr hv
      rw [List.length_cons, List.length_cons, List.length_append] at hle
      omega
    have hfirst : c :: u <+: c :: (u ++ r) := List.prefix_append (c :: u) r
    rw [countOf_append_self hp, ih, List.cons_append, occurrences_cons, if_pos hfirst,
      occurrences_append hpass]
  | passed c cs hc ih => rw [countOf_cons hc, occurrences_cons, if_neg hc, ih, Nat.add_zero]

end Constify.Text
