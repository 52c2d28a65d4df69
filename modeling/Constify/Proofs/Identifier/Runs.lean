import Mathlib.Data.List.TakeWhile
import Constify.Proofs.Identifier.Token

/-!
# Runs of identifier characters

* `identRuns t` : the text cut into runs of identifier characters, each as long as it can be;
* `MaximalRun r t` : `r` stands in `t` as such a run, and no longer one around it does;
* `maximalRun_iff`, `mem_identRuns_iff` : both say which characters stand next to the run;
* `mentions_iff_mem_identRuns` : a text mentions an identifier exactly if that is one of its runs.
-/

namespace Constify

variable {name r t : Text}

/-- The longest runs of identifier characters of a text, from left to right. -/
def identRuns : Text → List Text
  | [] => []
  | c :: cs =>
    if isIdentChar c then (c :: identRun cs) :: identRuns (cs.dropWhile isIdentChar) else identRuns cs
termination_by t => t.length
decreasing_by
  · exact Nat.lt_succ_of_le (List.dropWhile_suffix _).length_le
  · exact Nat.lt_succ_self _

/-- `r` stands in the text as a run of identifier characters, to which the text has nothing to add on
either side. -/
def MaximalRun (r t : Text) : Prop :=
  r ≠ [] ∧ (∀ c ∈ r, isIdentChar c = true) ∧
    ∃ a b, t = a ++ r ++ b ∧
      ∀ a' x y b', a = a' ++ x → b = y ++ b' → (∀ c ∈ x ++ y, isIdentChar c = true) → x = [] ∧ y = []

/-! ## The characters next to a run -/

theorem head_free_iff {b : Text} :
    (∀ c ∈ b.head?, isIdentChar c = false) ↔
      ∀ y b', b = y ++ b' → (∀ c ∈ y, isIdentChar c = true) → y = [] := by
  constructor
  · intro h y b' hb hy
    cases y with
    | nil => rfl
    | cons c y =>
      have hfree := h c (by rw [hb]; rfl)
      rw [hy c List.mem_cons_self] at hfree
      cases hfree
  · intro h c hc
    obtain ⟨b', rfl⟩ := List.head?_eq_some_iff.mp hc
    by_contra hident
    have := h [c] b' rfl (by simpa using hident)
    cases this

theorem last_free_iff {a : Text} :
    (∀ c ∈ a.getLast?, isIdentChar c = false) ↔
      ∀ a' x, a = a' ++ x → (∀ c ∈ x, isIdentChar c = true) → x = [] := by
  have hreverse := head_free_iff (b := a.reverse)
  rw [List.head?_reverse] at hreverse
  rw [hreverse]
  constructor
  · intro h a' x hax hx
    have := h x.reverse a'.reverse (by rw [hax, List.reverse_append]) (by simpa using hx)
    simpa using this
  · intro h y b' hyb hy
    have := h b'.reverse y.reverse (by rw [← List.reverse_append, ← hyb, List.reverse_reverse])
      (by simpa using hy)
    simpa using this

/-- Nothing can be added to a run exactly if it stands alone. -/
theorem maximalRun_iff :
    MaximalRun r t ↔ r ≠ [] ∧ (∀ c ∈ r, isIdentChar c = true) ∧ StandsAlone r t := by
  refine and_congr_right fun _ => and_congr_right fun _ => ?_
  refine exists_congr fun a => exists_congr fun b => and_congr_right fun _ => ?_
  rw [last_free_iff, head_free_iff]
  constructor
  · intro h
    constructor
    · exact fun a' x ha hx => (h a' x [] b ha rfl (by simpa using hx)).1
    · exact fun y b' hb hy => (h a [] y b' (by simp) hb (by simpa using hy)).2
  · rintro ⟨hlast, hhead⟩ a' x y b' ha hb hxy
    exact ⟨hlast a' x ha fun c hc => hxy c (List.mem_append_left y hc),
      hhead y b' hb fun c hc => hxy c (List.mem_append_right x hc)⟩

/-! ## Cutting a text into runs -/

theorem identRuns_nil : identRuns [] = [] := by rw [identRuns]

theorem identRuns_cons_of_ident {c : Char} (hc : isIdentChar c = true) (cs : Text) :
    identRuns (c :: cs) = (c :: identRun cs) :: identRuns (cs.dropWhile isIdentChar) := by
  rw [identRuns, if_pos hc]

theorem identRuns_cons_of_not_ident {c : Char} (hc : isIdentChar c = false) (cs : Text) :
    identRuns (c :: cs) = identRuns cs := by
  rw [identRuns, if_neg (by simp [hc])]

theorem head_dropWhile_free (t : Text) : ∀ c ∈ (t.dropWhile isIdentChar).head?, isIdentChar c = false := by
  intro c hc
  have hfree := List.head?_dropWhile_not isIdentChar t
  rwa [Option.mem_def.mp hc] at hfree

/-- The run at the front of a text is the only one that stands alone there. -/
theorem standsAlone_run_append {u rest : Text} (hune : u ≠ []) (hu : ∀ c ∈ u, isIdentChar c = true)
    (hrest : ∀ c ∈ rest.head?, isIdentChar c = false) (hne : r ≠ []) (hr : ∀ c ∈ r, isIdentChar c = true) :
    StandsAlone r (u ++ rest) ↔ r = u ∨ StandsAlone r rest := by
  constructor
  · rintro ⟨a, b, heq, hlast, hhead⟩
    rw [List.append_assoc] at heq
    rcases List.append_eq_append_iff.mp heq with ⟨v, rfl, hv⟩ | ⟨v, rfl, hv⟩
    · -- the run at the front ends before `r` starts
      rw [← List.append_assoc] at hv
      refine Or.inr ⟨v, b, hv, fun c hc => hlast c ?_, hhead⟩
      have hvne : v ≠ [] := by rintro rfl; cases hc
      rwa [List.getLast?_append_of_ne_nil u hvne]
    · have ha : a = [] := last_free_iff.mp hlast [] a rfl fun c hc => hu c (List.mem_append_left v hc)
      subst ha
      left
      rcases List.append_eq_append_iff.mp hv with ⟨w, rfl, hw⟩ | ⟨w, rfl, hw⟩
      · have hwnil : w = [] := head_free_iff.mp hhead w rest hw fun c hc => hu c (by simp [hc])
        rw [hwnil, List.append_nil, List.nil_append]
      · have hwnil : w = [] := head_free_iff.mp hrest w b hw fun c hc => hr c (List.mem_append_right v hc)
        rw [hwnil, List.append_nil, List.nil_append]
  · rintro (rfl | ⟨a, b, rfl, hlast, hhead⟩)
    · exact ⟨[], rest, by simp, by simp, hrest⟩
    · refine ⟨u ++ a, b, by simp, fun c hc => ?_, hhead⟩
      cases a with
      | nil =>
        -- `r` would go on where the run at the front ends
        have := head_free_iff.mp hrest r b (by simp) hr
        exact absurd this hne
      | cons d a =>
        rw [List.getLast?_append_of_ne_nil u (List.cons_ne_nil d a)] at hc
        exact hlast c hc

theorem standsAlone_cons_of_not_ident {c : Char} (hc : isIdentChar c = false) {cs : Text} (hne : r ≠ [])
    (hr : ∀ d ∈ r, isIdentChar d = true) : StandsAlone r (c :: cs) ↔ StandsAlone r cs := by
  constructor
  · rintro ⟨a, b, heq, hlast, hhead⟩
    cases a with
    | nil =>
      obtain ⟨d, ds, rfl⟩ := List.exists_cons_of_ne_nil hne
      obtain ⟨rfl, -⟩ := List.cons.inj heq
      rw [hr c List.mem_cons_self] at hc
      cases hc
    | cons d a =>
      obtain ⟨-, rfl⟩ := List.cons.inj heq
      refine ⟨a, b, rfl, fun x hx => hlast x ?_, hhead⟩
      cases a with
      | nil => cases hx
      | cons e a => rwa [List.getLast?_cons_cons]
  · rintro ⟨a, b, rfl, hlast, hhead⟩
    refine ⟨c :: a, b, rfl, fun x hx => ?_, hhead⟩
    cases a with
    | nil =>
      obtain rfl : c = x := by simpa using hx
      exact hc
    | cons d a =>
      rw [List.getLast?_cons_cons] at hx
      exact hlast x hx

theorem mem_identRuns_iff :
    r ∈ identRuns t ↔ r ≠ [] ∧ (∀ c ∈ r, isIdentChar c = true) ∧ StandsAlone r t := by
  induction t using identRuns.induct with
  | case1 =>
    rw [identRuns_nil]
    refine iff_of_false List.not_mem_nil ?_
    rintro ⟨hne, -, a, b, h, -⟩
    simp_all
  | case2 c cs hc ih =>
    have hsplit : c :: cs = (c :: identRun cs) ++ cs.dropWhile isIdentChar := by
      rw [List.cons_append, identRun, List.takeWhile_append_dropWhile]
    have hrun : ∀ d ∈ c :: identRun cs, isIdentChar d = true :=
      List.forall_mem_cons.mpr ⟨hc, fun d hd => List.mem_takeWhile_imp hd⟩
    rw [identRuns_cons_of_ident hc, List.mem_cons, ih]
    constructor
    · rintro (rfl | ⟨hne, hr, halone⟩)
      · refine ⟨List.cons_ne_nil _ _, hrun, ?_⟩
        rw [hsplit]
        exact (standsAlone_run_append (List.cons_ne_nil _ _) hrun (head_dropWhile_free cs)
          (List.cons_ne_nil _ _) hrun).mpr (Or.inl rfl)
      · refine ⟨hne, hr, ?_⟩
        rw [hsplit]
        exact (standsAlone_run_append (List.cons_ne_nil _ _) hrun (head_dropWhile_free cs) hne hr).mpr
          (Or.inr halone)
    · rintro ⟨hne, hr, halone⟩
      rw [hsplit, standsAlone_run_append (List.cons_ne_nil _ _) hrun (head_dropWhile_free cs) hne hr] at halone
      exact halone.imp_right fun h => ⟨hne, hr, h⟩
  | case3 c cs hc ih =>
    have hc : isIdentChar c = false := by simpa using hc
    rw [identRuns_cons_of_not_ident hc, ih]
    exact and_congr_right fun hne => and_congr_right fun hr => (standsAlone_cons_of_not_ident hc hne hr).symm

theorem mem_identRuns_iff_maximalRun : r ∈ identRuns t ↔ MaximalRun r t := by
  rw [mem_identRuns_iff, maximalRun_iff]

/-! ## Mentions -/

theorem mentions_iff_mem (hname : isIdentifier name = true) :
    mentions name t = true ↔ name ∈ identRuns t := by
  have hne : name ≠ [] := by
    rintro rfl
    cases hname
  rw [mentions_iff, mem_identRuns_iff]
  exact ⟨fun h => ⟨hne, fun _ hc => isIdentChar_of_mem hname hc, h⟩, fun h => h.2.2⟩

/-- **Whole tokens.** A text mentions an identifier exactly if the identifier is one of the longest runs of
identifier characters of the text. If it stands in the text only with such a character directly before or
after it, it is not mentioned; and where it stands with no such character on either side it is, whatever is
in front of it and behind it. -/
theorem mentions_iff_mem_identRuns (hname : isIdentifier name = true) (t : Text) :
    (mentions name t = true ↔ name ∈ identRuns t) ∧
      (∀ r, r ∈ identRuns t ↔ MaximalRun r t) ∧
      ((∀ a b, t = a ++ name ++ b →
          (∃ c ∈ a.getLast?, isIdentChar c = true) ∨ ∃ c ∈ b.head?, isIdentChar c = true) →
        mentions name t = false) ∧
      ∀ a b, (∀ c ∈ a.getLast?, isIdentChar c = false) → (∀ c ∈ b.head?, isIdentChar c = false) →
        mentions name (a ++ name ++ b) = true := by
  refine ⟨mentions_iff_mem hname, fun r => mem_identRuns_iff_maximalRun, fun hglued => ?_,
    fun a b ha hb => mentions_iff.mpr ⟨a, b, rfl, ha, hb⟩⟩
  rw [Bool.eq_false_iff, Ne, mentions_iff]
  rintro ⟨a, b, rfl, ha, hb⟩
  rcases hglued a b rfl with ⟨c, hc, hident⟩ | ⟨c, hc, hident⟩
  · rw [ha c hc] at hident
    cases hident
  · rw [hb c hc] at hident
    cases hident

/-- An identifier that overlaps with itself, between two longer runs that hold it twice each. -/
theorem mentions_iff_mem_identRuns_overlap :
    isIdentifier "$a$".toList = true ∧ "$a$".toList ∈ identRuns "$a$a$=$a$\n$a$a$".toList ∧
      mentions "$a$".toList "$a$a$=$a$\n$a$a$".toList = true := by
  have hmentions : mentions "$a$".toList "$a$a$=$a$\n$a$a$".toList = true := by decide
  exact ⟨by decide, (mentions_iff_mem_identRuns (by decide) _).1.mp hmentions, hmentions⟩

end Constify
