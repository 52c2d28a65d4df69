import Constify.Proofs.Text.Exclusive
import Constify.Substitution

/-!
# One scan

* `Substitution.pieces ss t` : one scan of `t` from the left, cutting it into the patterns that are
  found and the characters that start none (`flatMap_source_pieces`);
* `Substitution.Independent` : substitutions whose patterns exclude each other and are apart from all
  replacements;
* `apply_render`, `count_render` : one substitution replaces its own pieces and no others;
* `applyAll_render` : substitutions made one after the other replace the pieces that the scan of the
  first text found;
* `applyAll_of_perm` : the order of independent substitutions does not matter.
-/

namespace Constify

open Text (Apart Exclusive occurrences)

/-! ## Pieces -/

/-- A part of a text that was scanned from the left: a character that starts no pattern, or a
pattern that was found. -/
inductive Piece where
  | passed (c : Char)
  | found (s : Substitution)
  deriving DecidableEq, Repr

namespace Piece

def source : Piece → Text
  | passed c => [c]
  | found s => s.pattern

/-- What stands there when the pattern is replaced. -/
def target : Piece → Text
  | passed c => [c]
  | found s => s.replacement

/-- What stands there when the substitutions `done` have been made. -/
def render (done : List Substitution) : Piece → Text
  | passed c => [c]
  | found s => if s ∈ done then s.replacement else s.pattern

theorem render_nil : render [] = source := by
  funext p
  cases p <;> rfl

end Piece

namespace Substitution

/-- The pieces of a text, the first `skip` characters of which belong to a pattern that has already
been found. -/
def piecesFrom (ss : List Substitution) : Nat → Text → List Piece
  | _, [] => []
  | skip + 1, _ :: cs => piecesFrom ss skip cs
  | 0, c :: cs =>
    match ss.find? fun s => s.pattern.isPrefixOf (c :: cs) with
    | some s => .found s :: piecesFrom ss (s.pattern.length - 1) cs
    | none => .passed c :: piecesFrom ss 0 cs

def pieces (ss : List Substitution) (t : Text) : List Piece := piecesFrom ss 0 t

variable {ss : List Substitution} {s : Substitution}

theorem piecesFrom_eq_drop (ss : List Substitution) (skip : Nat) (t : Text) :
    piecesFrom ss skip t = pieces ss (t.drop skip) := by
  induction skip generalizing t with
  | zero => rfl
  | succ n ih =>
    cases t with
    | nil => rfl
    | cons c cs => rw [piecesFrom, ih, List.drop_succ_cons]

theorem pieces_induction (hss : ∀ s ∈ ss, s.pattern ≠ []) {motive : Text → List Piece → Prop}
    (nil : motive [] [])
    (found : ∀ s ∈ ss, ∀ r, motive r (pieces ss r) →
      motive (s.pattern ++ r) (.found s :: pieces ss r))
    (passed : ∀ c cs, (∀ s ∈ ss, ¬ s.pattern <+: c :: cs) → motive cs (pieces ss cs) →
      motive (c :: cs) (.passed c :: pieces ss cs)) (t : Text) : motive t (pieces ss t) := by
  induction ht : t.length using Nat.strongRecOn generalizing t with
  | ind n ih =>
    subst ht
    cases t with
    | nil => exact nil
    | cons c cs =>
      rw [pieces, piecesFrom]
      split
      · next s hs =>
        have hmem := List.mem_of_find?_eq_some hs
        have hstart : s.pattern <+: c :: cs := by
          simpa [List.isPrefixOf_iff_prefix] using List.find?_some hs
        obtain ⟨r, hr⟩ := hstart
        obtain ⟨d, p, hp⟩ := List.exists_cons_of_ne_nil (hss s hmem)
        have hdrop : cs.drop (s.pattern.length - 1) = r := by
          rw [hp, List.cons_append] at hr
          rw [hp, ← (List.cons.inj hr).2, List.length_cons, Nat.add_sub_cancel, List.drop_left]
        rw [piecesFrom_eq_drop, hdrop, ← hr]
        refine found s hmem r (ih r.length ?_ r rfl)
        rw [← hr, hp, List.length_append, List.length_cons]
        omega
      · next hs =>
        refine passed c cs (fun s hmem => ?_) (ih cs.length (by simp) cs rfl)
        simpa [List.isPrefixOf_iff_prefix] using List.find?_eq_none.mp hs s hmem

theorem flatMap_source_pieces (hss : ∀ s ∈ ss, s.pattern ≠ []) (t : Text) :
    (pieces ss t).flatMap Piece.source = t := by
  induction t using pieces_induction hss with
  | nil => rfl
  | found s _ r ih => rw [List.flatMap_cons, ih]; rfl
  | passed c cs _ ih => rw [List.flatMap_cons, ih]; rfl

theorem mem_of_found_mem_pieces (hss : ∀ s ∈ ss, s.pattern ≠ []) {t : Text}
    (h : .found s ∈ pieces ss t) : s ∈ ss := by
  induction t using pieces_induction hss with
  | nil => cases h
  | found r hr _ ih =>
    rcases List.mem_cons.mp h with h | h
    · cases h
      exact hr
    · exact ih h
  | passed c _ _ ih =>
    rcases List.mem_cons.mp h with h | h
    · cases h
    · exact ih h

/-! ## Substitutions that do not disturb each other -/

/-- The patterns exclude each other, each belongs to one substitution, and all of them are apart from
all replacements. -/
structure Independent (ss : List Substitution) : Prop where
  nodup : ss.Nodup
  ne_nil : ∀ s ∈ ss, s.pattern ≠ []
  inj : ∀ s ∈ ss, ∀ r ∈ ss, s.pattern = r.pattern → s = r
  exclusive : ∀ s ∈ ss, ∀ r ∈ ss, Exclusive s.pattern r.pattern
  apart : ∀ s ∈ ss, ∀ r ∈ ss, Apart s.pattern r.replacement

namespace Independent

variable {done : List Substitution} {r : Substitution}

theorem exclusive_render (h : Independent ss) (hs : s ∈ ss) (hr : r ∈ ss)
    (done : List Substitution) : Exclusive s.pattern ((Piece.found r).render done) := by
  rw [Piece.render]
  split
  · exact (h.apart s hs r hr).exclusive
  · exact h.exclusive s hs r hr

theorem apart_render (h : Independent ss) (hs : s ∈ ss) (hr : r ∈ ss) (hne : r ≠ s)
    (done : List Substitution) : Apart s.pattern ((Piece.found r).render done) := by
  rw [Piece.render]
  split
  · exact h.apart s hs r hr
  · exact (h.exclusive s hs r hr).apart fun heq => hne (h.inj s hs r hr heq).symm

/-- An occurrence that starts at a character of the scanned text ends before the next found pattern, so
making substitutions there neither brings nor takes it. -/
theorem prefix_source_of_prefix_render (h : Independent ss) (hs : s ∈ ss) {ps : List Piece}
    (hps : ∀ r, .found r ∈ ps → r ∈ ss) {x : Text} (hx : x ≠ [])
    (hstart : s.pattern <+: x ++ ps.flatMap (Piece.render done)) :
    s.pattern <+: x ++ ps.flatMap Piece.source := by
  induction ps generalizing x with
  | nil => exact hstart
  | cons p ps ih =>
    have hrest := fun r hr => hps r (List.mem_cons_of_mem _ hr)
    rw [List.flatMap_cons, ← List.append_assoc] at hstart ⊢
    cases p with
    | passed c => exact ih hrest (List.append_ne_nil_of_left_ne_nil hx _) hstart
    | found r =>
      obtain ⟨y, hy⟩ := hstart
      have hle := (h.exclusive_render hs (hps r (by simp)) done).length_le hx hy
      have hfront : s.pattern <+: x := by
        refine List.prefix_of_prefix_length_le ⟨y, hy⟩ ?_ hle
        rw [List.append_assoc]
        exact List.prefix_append _ _
      rw [List.append_assoc]
      exact hfront.trans (List.prefix_append _ _)

theorem not_prefix_render (h : Independent ss) (hs : s ∈ ss) {c : Char} {cs : Text}
    (hc : ¬ s.pattern <+: c :: cs) :
    ¬ s.pattern <+: c :: (pieces ss cs).flatMap (Piece.render done) := by
  intro hstart
  have hsource := h.prefix_source_of_prefix_render hs (x := [c])
    (fun r hr => mem_of_found_mem_pieces h.ne_nil hr) (by simp) hstart
  rw [flatMap_source_pieces h.ne_nil] at hsource
  exact hc hsource

theorem not_prefix_of_suffix_render (h : Independent ss) (hs : s ∈ ss) (hr : r ∈ ss) (hne : r ≠ s)
    (x : Text) : ∀ v, v ≠ [] → v <:+ (Piece.found r).render done → ¬ s.pattern <+: v ++ x :=
  fun _ hv hsuffix => (h.apart_render hs hr hne done).not_prefix_append (h.ne_nil s hs) hv hsuffix

theorem apply_render (h : Independent ss) (hs : s ∈ ss) (hdone : s ∉ done) (t : Text) :
    s.apply ((pieces ss t).flatMap (Piece.render done)) =
      (pieces ss t).flatMap (Piece.render (s :: done)) := by
  unfold apply
  induction t using pieces_induction h.ne_nil with
  | nil => rfl
  | passed c cs hc ih =>
    rw [List.flatMap_cons, List.flatMap_cons, ← ih]
    exact Text.replaceAll_cons (h.not_prefix_render hs (hc s hs)) _
  | found r hr _ ih =>
    rw [List.flatMap_cons, List.flatMap_cons, ← ih]
    by_cases hrs : r = s
    · subst hrs
      have hold : (Piece.found r).render done = r.pattern := if_neg hdone
      have hnew : (Piece.found r).render (r :: done) = r.replacement := if_pos (by simp)
      rw [hold, hnew, Text.replaceAll_append_self (h.ne_nil r hs)]
    · have hsame : (Piece.found r).render (s :: done) = (Piece.found r).render done := by
        simp only [Piece.render, List.mem_cons, hrs, false_or]
      rw [hsame, Text.replaceAll_append (h.not_prefix_of_suffix_render hs hr hrs _)]

theorem count_render (h : Independent ss) (hs : s ∈ ss) (hdone : s ∉ done) (t : Text) :
    s.count ((pieces ss t).flatMap (Piece.render done)) = (pieces ss t).count (.found s) := by
  unfold count
  induction t using pieces_induction h.ne_nil with
  | nil => rfl
  | passed c cs hc ih =>
    rw [List.flatMap_cons, List.count_cons_of_ne (by simp), ← ih]
    exact Text.countOf_cons (h.not_prefix_render hs (hc s hs))
  | found r hr _ ih =>
    rw [List.flatMap_cons]
    by_cases hrs : r = s
    · subst hrs
      have hold : (Piece.found r).render done = r.pattern := if_neg hdone
      rw [hold, Text.countOf_append_self (h.ne_nil r hs), ih, List.count_cons_self]
    · rw [List.count_cons_of_ne (by simpa using hrs), ← ih,
        Text.countOf_append (h.not_prefix_of_suffix_render hs hr hrs _)]

end Independent

/-! ## Substitutions one after the other -/

def reported (n : Nat) (s : Substitution) : Option Hit :=
  if n = 0 then none else some ⟨s.context, s.key, n⟩

theorem applyAll_render (h : Independent ss) {done rest : List Substitution}
    (hrest : ∀ s ∈ rest, s ∈ ss) (hnodup : rest.Nodup) (hdone : ∀ s ∈ rest, s ∉ done) (t : Text) :
    applyAll rest ((pieces ss t).flatMap (Piece.render done)) =
      ⟨(pieces ss t).flatMap (Piece.render (rest.reverse ++ done)),
        rest.filterMap fun s => s.reported ((pieces ss t).count (.found s))⟩ := by
  induction rest generalizing done with
  | nil => rfl
  | cons s rest ih =>
    obtain ⟨hs, hnodup⟩ := List.nodup_cons.mp hnodup
    have hstep : ∀ r ∈ rest, r ∉ s :: done := by
      intro r hr hmem
      rcases List.mem_cons.mp hmem with rfl | hmem
      · exact hs hr
      · exact hdone r (List.mem_cons_of_mem _ hr) hmem
    have hmem := hrest s (by simp)
    have hnot := hdone s (by simp)
    rw [applyAll, h.apply_render hmem hnot, ih (fun r hr => hrest r (List.mem_cons_of_mem _ hr)) hnodup
      hstep, hit?, h.count_render hmem hnot, List.filterMap_eq_flatMap_toList,
      List.filterMap_eq_flatMap_toList, List.flatMap_cons, List.reverse_cons, List.append_assoc]
    rfl

theorem count_pieces_eq_occurrences (h : Independent ss) (hs : s ∈ ss) (t : Text) :
    (pieces ss t).count (.found s) = occurrences s.pattern t := by
  rw [← h.count_render hs List.not_mem_nil t, Piece.render_nil, flatMap_source_pieces h.ne_nil, count,
    Text.countOf_eq_occurrences (h.ne_nil s hs) (h.exclusive s hs s hs)]

/-- Independent substitutions made one after the other in any order replace the pieces that one scan
finds, each as often as its pattern stands in the first text. -/
theorem applyAll_of_perm (h : Independent ss) {rs : List Substitution} (hrs : rs.Perm ss) (t : Text) :
    applyAll rs t =
      ⟨(pieces ss t).flatMap Piece.target,
        rs.filterMap fun s => s.reported (occurrences s.pattern t)⟩ := by
  have hnone : ∀ s ∈ rs, s ∉ ([] : List Substitution) := fun _ _ => List.not_mem_nil
  have happly := applyAll_render h (fun s hs => hrs.mem_iff.mp hs) (hrs.nodup_iff.mpr h.nodup) hnone t
  rw [Piece.render_nil, flatMap_source_pieces h.ne_nil, List.append_nil] at happly
  rw [happly]
  congr 1
  · refine List.flatMap_congr fun p hp => ?_
    cases p with
    | passed c => rfl
    | found s =>
      refine if_pos ?_
      rw [List.mem_reverse, hrs.mem_iff]
      exact mem_of_found_mem_pieces h.ne_nil hp
  · refine List.filterMap_congr fun s hs => ?_
    rw [count_pieces_eq_occurrences h (hrs.mem_iff.mp hs)]

end Substitution

end Constify
