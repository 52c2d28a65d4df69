import Mathlib.Tactic
import Constify.Proofs.Patch.Apply

/-!
# Longest common subsequences

* `LongestCommon l as bs` : `l` is a longest list whose elements stand in both lists in order;
* `lcsLength` : its length, by recursion on both lists (`length_le_lcsLength`, `exists_longestCommon`);
* `lcsLength_common` : the elements that both lists have in front and at the end all count;
* `Alignment.lcsRows_eq` : the rows of an alignment hold these lengths;
* `Alignment.count_keep_walk` : the walk through the rows keeps as many lines;
* `count_keep_alignment` : so does an alignment whose table is not too large.
-/

namespace Constify

variable {α : Type}

/-- A longest list whose elements stand in both lists in order. -/
structure LongestCommon (l as bs : List α) : Prop where
  left : l.Sublist as
  right : l.Sublist bs
  longest : ∀ k : List α, k.Sublist as → k.Sublist bs → k.length ≤ l.length

section

variable [DecidableEq α]

/-- The length of a longest common subsequence. -/
def lcsLength : List α → List α → Nat
  | a :: as, b :: bs =>
    if a = b then lcsLength as bs + 1 else max (lcsLength as (b :: bs)) (lcsLength (a :: as) bs)
  | _, _ => 0
termination_by as bs => as.length + bs.length

@[simp] theorem lcsLength_nil_left (bs : List α) : lcsLength [] bs = 0 := by simp [lcsLength]

@[simp] theorem lcsLength_nil_right (as : List α) : lcsLength as [] = 0 := by simp [lcsLength]

theorem lcsLength_cons_self (a : α) (as bs : List α) :
    lcsLength (a :: as) (a :: bs) = lcsLength as bs + 1 := by
  rw [lcsLength, if_pos rfl]

theorem lcsLength_cons_of_ne {a b : α} (h : a ≠ b) (as bs : List α) :
    lcsLength (a :: as) (b :: bs) = max (lcsLength as (b :: bs)) (lcsLength (a :: as) bs) := by
  rw [lcsLength, if_neg h]

/-! ## The longest -/

theorem length_le_lcsLength {l as bs : List α} (has : l.Sublist as) (hbs : l.Sublist bs) :
    l.length ≤ lcsLength as bs := by
  fun_induction lcsLength as bs generalizing l with
  | case1 as b bs ih =>
    cases l with
    | nil => exact Nat.zero_le _
    | cons x l => exact Nat.succ_le_succ (ih has.tail hbs.tail)
  | case2 a as b bs hne ihas ihbs =>
    -- the first element cannot be `a` and `b` at once
    rcases List.sublist_cons_iff.mp has with has' | ⟨r, rfl, -⟩
    · exact (ihas has' hbs).trans (le_max_left _ _)
    · rcases List.sublist_cons_iff.mp hbs with hbs' | ⟨r', hr, -⟩
      · exact (ihbs has hbs').trans (le_max_right _ _)
      · exact absurd (List.cons.inj hr).1 hne
  | case3 as bs h =>
    cases as with
    | nil => rw [List.sublist_nil.mp has, List.length_nil]
    | cons a as =>
      cases bs with
      | nil => rw [List.sublist_nil.mp hbs, List.length_nil]
      | cons b bs => exact absurd rfl (h a as b bs rfl)

theorem exists_sublist_of_lcsLength (as bs : List α) :
    ∃ l : List α, l.Sublist as ∧ l.Sublist bs ∧ l.length = lcsLength as bs := by
  fun_induction lcsLength as bs with
  | case1 as b bs ih =>
    obtain ⟨l, has, hbs, hlen⟩ := ih
    exact ⟨b :: l, has.cons_cons b, hbs.cons_cons b, by rw [List.length_cons, hlen]⟩
  | case2 a as b bs hne ihas ihbs =>
    rcases le_total (lcsLength as (b :: bs)) (lcsLength (a :: as) bs) with hle | hle
    · obtain ⟨l, has, hbs, hlen⟩ := ihbs
      exact ⟨l, has, hbs.cons b, by rw [hlen, max_eq_right hle]⟩
    · obtain ⟨l, has, hbs, hlen⟩ := ihas
      exact ⟨l, has.cons a, hbs, by rw [hlen, max_eq_left hle]⟩
  | case3 as bs h => exact ⟨[], List.nil_sublist as, List.nil_sublist bs, rfl⟩

theorem exists_longestCommon (as bs : List α) :
    ∃ l, LongestCommon l as bs ∧ l.length = lcsLength as bs := by
  obtain ⟨l, has, hbs, hlen⟩ := exists_sublist_of_lcsLength as bs
  refine ⟨l, ⟨has, hbs, fun k hk hk' => ?_⟩, hlen⟩
  rw [hlen]
  exact length_le_lcsLength hk hk'

/-! ## What both lists have in front and at the end -/

theorem lcsLength_append_left (front as bs : List α) :
    lcsLength (front ++ as) (front ++ bs) = front.length + lcsLength as bs := by
  induction front with
  | nil => exact (Nat.zero_add _).symm
  | cons a front ih =>
    rw [List.cons_append, List.cons_append, lcsLength_cons_self, ih, List.length_cons]
    omega

theorem lcsLength_le_reverse (as bs : List α) : lcsLength as bs ≤ lcsLength as.reverse bs.reverse := by
  obtain ⟨l, has, hbs, hlen⟩ := exists_sublist_of_lcsLength as bs
  rw [← hlen, ← List.length_reverse]
  exact length_le_lcsLength has.reverse hbs.reverse

theorem lcsLength_reverse (as bs : List α) : lcsLength as.reverse bs.reverse = lcsLength as bs := by
  refine le_antisymm ?_ (lcsLength_le_reverse as bs)
  have h := lcsLength_le_reverse as.reverse bs.reverse
  rwa [List.reverse_reverse, List.reverse_reverse] at h

theorem lcsLength_append_right (as bs back : List α) :
    lcsLength (as ++ back) (bs ++ back) = lcsLength as bs + back.length := by
  rw [← lcsLength_reverse, List.reverse_append, List.reverse_append, lcsLength_append_left,
    lcsLength_reverse, List.length_reverse, Nat.add_comm]

/-- The lines that are left out of an alignment are no loss. -/
theorem lcsLength_common (front as bs back : List α) :
    lcsLength (front ++ (as ++ back)) (front ++ (bs ++ back)) =
      front.length + lcsLength as bs + back.length := by
  rw [lcsLength_append_left, lcsLength_append_right, Nat.add_assoc]

/-! ## The rows of an alignment -/

namespace Alignment

omit [DecidableEq α] in
theorem headD_map_tails (f : List α → Nat) (as : List α) : (as.tails.map f).headD 0 = f as := by
  cases as <;> rfl

omit [DecidableEq α] in
theorem getD_toArray_map_tails (f : List α → Nat) {as : List α} {j : Nat} (hj : j ≤ as.length) :
    (as.tails.map f).toArray.getD j 0 = f (as.drop j) := by
  have hlen : j < (as.tails.map f).length := by
    rw [List.length_map, List.length_tails]
    omega
  rw [Array.getD_eq_getD_getElem?, List.getElem?_toArray, List.getElem?_eq_getElem hlen, Option.getD_some,
    List.getElem_map, List.getElem_tails]

theorem nextRow_eq (a : α) (as new : List α) :
    nextRow a new (new.tails.map (lcsLength as)) = new.tails.map (lcsLength (a :: as)) := by
  induction new with
  | nil =>
    show [0] = [lcsLength (a :: as) []]
    rw [lcsLength_nil_right]
  | cons b bs ih =>
    rw [List.tails_cons, List.map_cons, List.map_cons, nextRow, ih, headD_map_tails, headD_map_tails]
    by_cases hab : a = b
    · subst hab
      rw [if_pos rfl, lcsLength_cons_self]
    · rw [if_neg hab, lcsLength_cons_of_ne hab]

/-- The rows hold the lengths for all pairs of tails. -/
theorem lcsRows_eq (old new : List α) :
    lcsRows old new = old.tails.map fun as => new.tails.map (lcsLength as) := by
  induction old with
  | nil =>
    have hzero : new.tails.map (lcsLength []) = new.tails.map fun _ => 0 :=
      List.map_congr_left fun bs _ => lcsLength_nil_left bs
    show [List.replicate (new.length + 1) 0] = [new.tails.map (lcsLength [])]
    rw [hzero, List.map_const', List.length_tails]
  | cons a old ih =>
    have hhead : (lcsRows old new).headD [] = new.tails.map (lcsLength old) := by
      rw [ih]
      cases old <;> rfl
    rw [lcsRows, hhead, nextRow_eq, ih, List.tails_cons, List.map_cons]

/-- The rows of a walk: those of the old lines ahead, for all new lines. -/
def rowsOf (old whole : List α) : List (Array Nat) :=
  old.tails.map fun as => (whole.tails.map (lcsLength as)).toArray

theorem rowsOf_cons (a : α) (old whole : List α) :
    rowsOf (a :: old) whole = (whole.tails.map (lcsLength (a :: old))).toArray :: rowsOf old whole := rfl

theorem getD_headD_rowsOf (old : List α) {whole : List α} {j : Nat} (hj : j ≤ whole.length) :
    ((rowsOf old whole).headD #[]).getD j 0 = lcsLength old (whole.drop j) := by
  have hhead : (rowsOf old whole).headD #[] = (whole.tails.map (lcsLength old)).toArray := by
    cases old <;> rfl
  rw [hhead, getD_toArray_map_tails _ hj]

/-- The walk keeps as many lines as a longest common subsequence has, where `whole` are all new lines and
`j` of them lie behind. -/
theorem count_keep_walk {old new whole : List α} {rows : List (Array Nat)} {j : Nat} (pending : Nat)
    (hrows : rows = rowsOf old whole) (hnew : whole.drop j = new) :
    (walk old new rows j pending).count .keep = lcsLength old new := by
  have hnext : ∀ {b : α} {rest : List α} {j : Nat}, whole.drop j = b :: rest →
      whole.drop (j + 1) = rest ∧ j + 1 ≤ whole.length := by
    intro b rest j h
    refine ⟨by rw [← List.drop_drop, h]; rfl, ?_⟩
    have hlen := congrArg List.length h
    rw [List.length_drop, List.length_cons] at hlen
    omega
  fun_induction walk old new rows j pending with
  | case1 old b new row rows j pending ih =>
    obtain ⟨hdrop, -⟩ := hnext hnew
    rw [rowsOf_cons] at hrows
    rw [List.count_append, List.count_replicate, List.count_cons_self, ih (List.cons.inj hrows).2 hdrop,
      lcsLength_cons_self, if_neg (by decide), Nat.zero_add]
  | case2 a old b new row rows j pending hne hle ih =>
    obtain ⟨hdrop, hj⟩ := hnext hnew
    rw [rowsOf_cons] at hrows
    obtain ⟨rfl, rfl⟩ := List.cons.inj hrows
    rw [getD_headD_rowsOf old (by omega), getD_toArray_map_tails _ hj, hdrop, hnew] at hle
    rw [ih rfl hdrop, lcsLength_cons_of_ne hne, max_eq_right hle]
  | case3 a old b new row rows j pending hne hlt ih =>
    obtain ⟨hdrop, hj⟩ := hnext hnew
    rw [rowsOf_cons] at hrows
    obtain ⟨rfl, rfl⟩ := List.cons.inj hrows
    rw [getD_headD_rowsOf old (by omega), getD_toArray_map_tails _ hj, hdrop, hnew] at hlt
    rw [List.count_cons_of_ne (by decide), ih rfl hnew, lcsLength_cons_of_ne hne, max_eq_left (by omega)]
  | case4 j old new rows pending h =>
    -- one of the lists is used up
    rw [List.count_append, List.count_replicate, List.count_replicate, if_neg (by decide),
      if_neg (by decide)]
    cases old with
    | nil => rw [lcsLength_nil_left]
    | cons a old =>
      cases new with
      | nil => rw [lcsLength_nil_right]
      | cons b new => exact (h a old b new _ _ rfl rfl hrows).elim

end Alignment

/-- An alignment keeps as many lines as a longest common subsequence has, if its table is not too large. -/
theorem count_keep_alignment {old new : List α} (h : old.length * new.length ≤ Alignment.maxCells) :
    (alignment old new).count .keep = lcsLength old new := by
  unfold alignment
  split
  · next hsize =>
    rw [Alignment.replacement, List.count_append, List.count_replicate, List.count_replicate,
      if_neg (by decide), if_neg (by decide)]
    rcases hsize with hold | hnew | hlarge
    · rw [List.length_eq_zero_iff.mp hold, lcsLength_nil_left]
    · rw [List.length_eq_zero_iff.mp hnew, lcsLength_nil_right]
    · exact absurd h (Nat.not_le.mpr hlarge)
  · refine Alignment.count_keep_walk 0 ?_ rfl
    rw [Alignment.lcsRows_eq, List.map_map]
    rfl

end

end Constify
