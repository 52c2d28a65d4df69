import Mathlib.Data.List.TakeWhile
import Constify.Proofs.Import.Clause

/-!
# Reading the text of a declaration

* `Declaration.quotedModule?_eq_some_iff`, `Declaration.fromModule?_eq_some_iff` : the module between quotes;
* `Declaration.splitFrom?_append` : the clause is the text in front of the last `from` before a quote, if
  no quote stands in it;
* `Declaration.splitFrom?_eq_none` : a text with one quote has no clause;
* `Declaration.clause?_import`, `Declaration.clause?_import_type` : the clause after `import`, without and
  with the word `type`;
* `Declaration.ofText_of_clause?`, `Declaration.ofText_bare` : the declaration of a text.
-/

namespace Constify

open Text (trimEnd)

namespace Declaration

/-! ## The module -/

theorem quotedModule?_cons (q : Char) (cs : Text) :
    quotedModule? (q :: cs) =
      if isQuote q = true then
        (cs.dropWhile fun c => !isQuote c).head?.map fun _ => cs.takeWhile fun c => !isQuote c
      else none := by
  rw [quotedModule?]
  congr 1
  split
  · next hdrop => rw [hdrop, List.head?_nil, Option.map_none]
  · next hdrop => rw [hdrop, List.head?_cons, Option.map_some]

/-- The module stands between the quote at the front and the next one. -/
theorem quotedModule?_eq_some_iff {t m : Text} :
    quotedModule? t = some m ↔
      ∃ q q' rest, t = q :: (m ++ q' :: rest) ∧ isQuote q = true ∧ isQuote q' = true ∧
        ∀ c ∈ m, isQuote c = false := by
  cases t with
  | nil => simp [quotedModule?]
  | cons q cs =>
    rw [quotedModule?_cons]
    constructor
    · intro h
      split at h
      · next hq =>
        obtain ⟨q', hhead, rfl⟩ := Option.map_eq_some_iff.mp h
        have hq' := List.head?_dropWhile_not (fun c => !isQuote c) cs
        rw [hhead] at hq'
        refine ⟨q, q', (cs.dropWhile fun c => !isQuote c).tail, ?_, hq, by simpa using hq', fun c hc => ?_⟩
        · rw [List.cons_head?_tail hhead, List.takeWhile_append_dropWhile]
        · simpa using List.mem_takeWhile_imp hc
      · cases h
    · rintro ⟨q₁, q', rest, heq, hq, hq', hm⟩
      obtain ⟨rfl, rfl⟩ := List.cons.inj heq
      have hpass : ∀ c ∈ m, (!isQuote c) = true := fun c hc => by simp [hm c hc]
      rw [if_pos hq, List.dropWhile_append_of_pos hpass, List.takeWhile_append_of_pos hpass,
        List.dropWhile_cons_of_neg (by simp [hq']), List.takeWhile_cons_of_neg (by simp [hq'])]
      simp

theorem exists_quotedModule? {q q' : Char} {cs : Text} (hq : isQuote q = true) (hmem : q' ∈ cs)
    (hq' : isQuote q' = true) : ∃ m, quotedModule? (q :: cs) = some m := by
  have hne : cs.dropWhile (fun c => !isQuote c) ≠ [] := fun hnil => by
    have := List.dropWhile_eq_nil_iff.mp hnil q' hmem
    simp [hq'] at this
  obtain ⟨c, rest, hdrop⟩ := List.exists_cons_of_ne_nil hne
  have hc := List.head?_dropWhile_not (fun c => !isQuote c) cs
  rw [hdrop] at hc
  refine ⟨cs.takeWhile fun c => !isQuote c, quotedModule?_eq_some_iff.mpr ⟨q, c, rest, ?_, hq, ?_, ?_⟩⟩
  · rw [← hdrop, List.takeWhile_append_dropWhile]
  · simpa using hc
  · exact fun d hd => by simpa using List.mem_takeWhile_imp hd

theorem fromModule?_eq_some_iff {before : Option Char} {t m : Text} :
    fromModule? before t = some m ↔
      atBoundary before = true ∧
        ∃ gap s, t = "from".toList ++ (gap ++ s) ∧ Blanks gap ∧ quotedModule? s = some m := by
  rw [fromModule?]
  constructor
  · intro h
    split at h
    · next hb =>
      obtain ⟨r, hr, hm⟩ := Option.bind_eq_some_iff.mp h
      refine ⟨hb, r.takeWhile isBlank, r.trimStart, ?_, fun c hc => List.mem_takeWhile_imp hc, hm⟩
      rw [Text.takeWhile_append_trimStart]
      exact Text.after?_eq_some_iff.mp hr
    · cases h
  · rintro ⟨hb, gap, s, rfl, hgap, hm⟩
    obtain ⟨q, q', rest, rfl, hq, -, -⟩ := quotedModule?_eq_some_iff.mp hm
    have hafter : Text.after? "from".toList ("from".toList ++ (gap ++ q :: (m ++ q' :: rest))) = some _ :=
      Text.after?_eq_some_iff.mpr rfl
    rw [if_pos hb, hafter, Option.bind_some, Text.trimStart_append_cons hgap (isBlank_of_isQuote hq), hm]

/-- Nothing that stands in front of `from` and has no quote starts another one. -/
theorem fromModule?_eq_none {before : Option Char} {front gap s m : Text} (hne : front ≠ [])
    (hfront : ∀ c ∈ front, isQuote c = false) (hgap : Blanks gap) (hs : quotedModule? s = some m) :
    fromModule? before (front ++ ("from".toList ++ (gap ++ s))) = none := by
  rw [Option.eq_none_iff_forall_not_mem]
  intro m' hm'
  obtain ⟨-, gap', s', heq, hgap', hs'⟩ := fromModule?_eq_some_iff.mp hm'
  obtain ⟨q, _, _, rfl, hq, -, -⟩ := quotedModule?_eq_some_iff.mp hs
  obtain ⟨q', _, _, rfl, hq', -, -⟩ := quotedModule?_eq_some_iff.mp hs'
  have hfrom : ∀ c ∈ "from".toList, isQuote c = false := by decide
  -- the first quote is in the same place, and what stands in front of it ends with `from` and blanks
  have htake := congrArg (List.takeWhile fun c => !isQuote c) heq
  rw [← List.append_assoc, ← List.append_assoc, ← List.append_assoc,
    List.takeWhile_append_of_pos (by
      simp only [List.mem_append]
      rintro c ((hc | hc) | hc)
      · simp [hfront c hc]
      · simp [hfrom c hc]
      · simp [isQuote_of_isBlank (hgap c hc)]),
    List.takeWhile_append_of_pos (by
      simp only [List.mem_append]
      rintro c (hc | hc)
      · simp [hfrom c hc]
      · simp [isQuote_of_isBlank (hgap' c hc)]),
    List.takeWhile_cons_of_neg (by simp [hq]), List.takeWhile_cons_of_neg (by simp [hq'])] at htake
  have htrim := congrArg trimEnd htake
  simp only [List.append_nil] at htrim
  rw [Text.trimEnd_append hgap, Text.trimEnd_append hgap', Text.trimEnd_of_last (by simp [isBlank]),
    Text.trimEnd_of_last (by decide)] at htrim
  have hlength := congrArg List.length htrim
  rw [List.length_append] at hlength
  exact hne (List.length_eq_zero_iff.mp (by omega))

theorem splitFrom?_of_none {before : Option Char} {c : Char} {cs : Text}
    (h : fromModule? before (c :: cs) = none) :
    splitFrom? before (c :: cs) = (splitFrom? (some c) cs).map fun s => (c :: s.1, s.2) := by
  rw [splitFrom?, h]

/-- The clause is what stands in front of the `from` before the first quote. -/
theorem splitFrom?_append {before : Option Char} {front gap s m : Text} (hne : front ≠ [])
    (hfront : ∀ c ∈ front, isQuote c = false) (hlast : ∀ c ∈ front.getLast?, isWord c = false)
    (hgap : Blanks gap) (hs : quotedModule? s = some m) :
    splitFrom? before (front ++ ("from".toList ++ (gap ++ s))) = some (front, m) := by
  induction front generalizing before with
  | nil => exact absurd rfl hne
  | cons c front ih =>
    have hnone : fromModule? before (c :: front ++ ("from".toList ++ (gap ++ s))) = none :=
      fromModule?_eq_none hne hfront hgap hs
    refine (splitFrom?_of_none hnone).trans ?_
    cases front with
    | nil =>
      have hsome : fromModule? (some c) ('f' :: ("rom".toList ++ (gap ++ s))) = some m :=
        fromModule?_eq_some_iff.mpr ⟨by simpa [atBoundary] using hlast, gap, s, rfl, hgap, hs⟩
      have hfrom : splitFrom? (some c) ('f' :: ("rom".toList ++ (gap ++ s))) = some ([], m) := by
        rw [splitFrom?, hsome]
      exact congrArg (Option.map fun s => (c :: s.1, s.2)) hfrom
    | cons d front =>
      rw [List.getLast?_cons_cons] at hlast
      have hrest : splitFrom? (some c) (d :: front ++ ("from".toList ++ (gap ++ s))) = some (d :: front, m) :=
        ih (by simp) (fun x hx => hfront x (List.mem_cons_of_mem c hx)) hlast
      exact congrArg (Option.map fun s => (c :: s.1, s.2)) hrest

theorem splitFrom?_eq_none {before : Option Char} {t : Text} (h : t.countP isQuote ≤ 1) :
    splitFrom? before t = none := by
  induction t generalizing before with
  | nil => rfl
  | cons c cs ih =>
    have hnone : fromModule? before (c :: cs) = none := by
      rw [Option.eq_none_iff_forall_not_mem]
      intro m hm
      obtain ⟨-, gap, s, heq, -, hs⟩ := fromModule?_eq_some_iff.mp hm
      obtain ⟨q, q', rest, rfl, hq, hq', -⟩ := quotedModule?_eq_some_iff.mp hs
      rw [heq] at h
      simp only [List.countP_append, List.countP_cons, hq, hq', if_true] at h
      omega
    rw [List.countP_cons] at h
    rw [splitFrom?_of_none hnone, ih (by omega)]
    rfl

/-! ## The whole text -/

theorem afterBlanks?_of_blanks {gap t : Text} (hne : gap ≠ []) (hgap : Blanks gap)
    (ht : ∀ c ∈ t.head?, isBlank c = false) : afterBlanks? (gap ++ t) = some t := by
  obtain ⟨b, bs, rfl⟩ := List.exists_cons_of_ne_nil hne
  have hb := hgap b (by simp)
  rw [afterBlanks?, if_pos (by simpa using hb), Text.trimStart_append hgap, Text.trimStart_of_head ht]

theorem afterBlanks?_word (word gap : Text) {t : Text} (hne : gap ≠ []) (hgap : Blanks gap)
    (ht : ∀ c ∈ t.head?, isBlank c = false) :
    (Text.after? word (word ++ (gap ++ t))).bind afterBlanks? = some t := by
  rw [Text.after?_eq_some_iff.mpr rfl, Option.bind_some, afterBlanks?_of_blanks hne hgap ht]

/-- No word `type` stands in front of the clause, unless blanks follow it. -/
theorem afterBlanks?_type_eq_none {t : Text}
    (h : ∀ r, t = "type".toList ++ r → ∀ c ∈ r.head?, isBlank c = false) :
    (Text.after? "type".toList t).bind afterBlanks? = none := by
  cases hafter : Text.after? "type".toList t with
  | none => rfl
  | some r =>
    have hhead := h r (Text.after?_eq_some_iff.mp hafter)
    rw [Option.bind_some, afterBlanks?, if_neg]
    cases r with
    | nil => simp
    | cons c r => simpa using hhead c rfl

theorem clause?_import {t : Text} (ht : ∀ c ∈ t.head?, isBlank c = false)
    (htype : ∀ r, t = "type".toList ++ r → ∀ c ∈ r.head?, isBlank c = false) :
    clause? ("import ".toList ++ t) = (splitFrom? (some ' ') t).map fun s => (trimEnd s.1, s.2) := by
  have himport := afterBlanks?_word "import".toList [' '] (by simp) (by decide) ht
  rw [clause?]
  show ((Text.after? "import".toList ("import".toList ++ ([' '] ++ t))).bind afterBlanks?).bind _ = _
  rw [himport, Option.bind_some, afterBlanks?_type_eq_none htype, Option.getD_none]

theorem clause?_import_type {t : Text} (ht : ∀ c ∈ t.head?, isBlank c = false) :
    clause? ("import type ".toList ++ t) = (splitFrom? (some ' ') t).map fun s => (trimEnd s.1, s.2) := by
  have himport := afterBlanks?_word "import".toList [' '] (t := "type".toList ++ ([' '] ++ t)) (by simp)
    (by decide) (by simp [isBlank])
  have htype := afterBlanks?_word "type".toList [' '] (by simp) (by decide) ht
  rw [clause?]
  show ((Text.after? "import".toList
    ("import".toList ++ ([' '] ++ ("type".toList ++ ([' '] ++ t))))).bind afterBlanks?).bind _ = _
  rw [himport, Option.bind_some, htype, Option.getD_some]

theorem ofText_of_clause? {t clause source : Text} (h : clause? t = some (clause, source))
    (first last : Nat) : ofText first last t = ⟨first, last, Clause.bindings clause, some source⟩ := by
  rw [ofText, h]

theorem ofText_bare {s m : Text} (hs : quotedModule? s = some m) (hquotes : s.countP isQuote ≤ 2)
    (first last : Nat) : ofText first last ("import ".toList ++ s) = ⟨first, last, [], some m⟩ := by
  obtain ⟨q, q', rest, rfl, hq, hq', -⟩ := quotedModule?_eq_some_iff.mp hs
  have hhead : ∀ c ∈ (q :: (m ++ q' :: rest)).head?, isBlank c = false := by
    simpa using isBlank_of_isQuote hq
  have hmodule : bareModule? ("import ".toList ++ q :: (m ++ q' :: rest)) = some m := by
    have himport := afterBlanks?_word "import".toList [' '] (by simp) (by decide) hhead
    rw [bareModule?]
    show ((Text.after? "import".toList ("import".toList ++ ([' '] ++ _))).bind afterBlanks?).bind _ = _
    rw [himport, Option.bind_some, hs]
  have hclause : clause? ("import ".toList ++ q :: (m ++ q' :: rest)) = none := by
    have htype : ∀ r, q :: (m ++ q' :: rest) = "type".toList ++ r → ∀ c ∈ r.head?, isBlank c = false := by
      intro r hr
      rw [(List.cons.inj hr).1] at hq
      cases hq
    have hnone : fromModule? (some ' ') (q :: (m ++ q' :: rest)) = none := by
      rw [Option.eq_none_iff_forall_not_mem]
      intro m' hm'
      obtain ⟨-, gap, s, heq, -, -⟩ := fromModule?_eq_some_iff.mp hm'
      rw [(List.cons.inj heq).1] at hq
      cases hq
    rw [List.countP_cons, if_pos hq] at hquotes
    rw [clause?_import hhead htype, splitFrom?_of_none hnone, splitFrom?_eq_none (by omega)]
    rfl
  rw [ofText, hclause, hmodule]

end Declaration

end Constify
