import Mathlib.Data.List.TakeWhile
import Constify.Proofs.Table.Header

/-!
# Text after the object

* `ObjectLiteral.afterName?_append` : what follows a name is read the same with more text behind it, if
  an equals sign and a brace are in it already;
* `ObjectLiteral.exists_atHeader?_of_append` : no earlier header comes into being by text that is added
  behind another;
* `ObjectLiteral.openingFrom?_append_of_some`, `ObjectLiteral.untilClose?_append_of_some` : so the same
  object is found, with the same body;
* `Table.ofModule?_append` : the table of a module does not depend on what follows its object.
-/

namespace Constify

/-! ## Scans of a text with more behind it -/

namespace Text

theorem cons_sublist_of_not_mem {a : Char} {l x y : Text} (ha : a ∉ x) (h : (a :: l).Sublist (x ++ y)) :
    (a :: l).Sublist y := by
  obtain ⟨u, v, huv, hu, hv⟩ := List.sublist_append_iff.mp h
  cases u with
  | nil => rwa [huv]
  | cons b u =>
    obtain ⟨rfl, -⟩ := List.cons.inj huv
    exact absurd (hu.subset (List.mem_cons_self ..)) ha

theorem sublist_dropWhile {p : Char → Bool} {a : Char} {l t : Text} (hp : p a = false)
    (h : (a :: l).Sublist t) : (a :: l).Sublist (t.dropWhile p) := by
  rw [← List.takeWhile_append_dropWhile (p := p) (l := t)] at h
  refine cons_sublist_of_not_mem (fun hmem => ?_) h
  rw [List.mem_takeWhile_imp hmem] at hp
  cases hp

theorem dropWhile_append_of_sublist {p : Char → Bool} {a : Char} {l t : Text} (hp : p a = false)
    (h : (a :: l).Sublist t) (rest : Text) : (t ++ rest).dropWhile p = t.dropWhile p ++ rest := by
  have hne : (t.dropWhile p).isEmpty = false := by
    rw [List.isEmpty_eq_false_iff]
    exact List.ne_nil_of_mem ((sublist_dropWhile hp h).subset (List.mem_cons_self ..))
  rw [List.dropWhile_append, hne]
  rfl

end Text

namespace ObjectLiteral

variable {name t rest body : Text}

/-! ## What follows the name -/

theorem skipType_append (h : ['=', '{'].Sublist t) (rest : Text) :
    skipType (t ++ rest) = skipType t ++ rest ∧ ['=', '{'].Sublist (skipType t) := by
  cases t with
  | nil => cases h
  | cons c cs =>
    by_cases hc : c = ':'
    · subst hc
      have hcs : ['=', '{'].Sublist cs :=
        Text.cons_sublist_of_not_mem (x := [':']) (by decide) h
      exact ⟨Text.dropWhile_append_of_sublist (by decide) hcs rest, Text.sublist_dropWhile (by decide) hcs⟩
    · have hskip : ∀ ds, skipType (c :: ds) = c :: ds := by
        intro ds
        unfold skipType
        split
        · next h => exact absurd (List.cons.inj h).1 hc
        · rfl
      rw [List.cons_append, hskip, hskip]
      exact ⟨rfl, h⟩

theorem fromEquals?_append (h : ['=', '{'].Sublist t) (rest : Text) :
    fromEquals? (t ++ rest) = (fromEquals? t).map (· ++ rest) := by
  cases t with
  | nil => cases h
  | cons c cs =>
    by_cases hc : c = '='
    · subst hc
      have hcs : ['{'].Sublist cs := List.cons_sublist_cons.mp h
      have hbrace : ['{'].Sublist (Text.trimStart cs) := Text.sublist_dropWhile (by decide) hcs
      have htrim : Text.trimStart (cs ++ rest) = Text.trimStart cs ++ rest :=
        Text.dropWhile_append_of_sublist (by decide) hcs rest
      rw [List.cons_append, fromEquals?, fromEquals?, htrim]
      cases hd : Text.trimStart cs with
      | nil =>
        rw [hd] at hbrace
        cases hbrace
      | cons d ds =>
        by_cases hbrace : d = '{'
        · subst hbrace
          rfl
        · simp [hbrace]
    · simp [fromEquals?, hc]

/-- With the equals sign and the brace in the text, what stands behind it does not count. -/
theorem afterName?_append (h : ['=', '{'].Sublist t) (rest : Text) :
    afterName? (t ++ rest) = (afterName? t).map (· ++ rest) := by
  have htrim : Text.trimStart (t ++ rest) = Text.trimStart t ++ rest :=
    Text.dropWhile_append_of_sublist (by decide) h rest
  have hstart : ['=', '{'].Sublist (Text.trimStart t) := Text.sublist_dropWhile (by decide) h
  obtain ⟨hskip, hsublist⟩ := skipType_append hstart rest
  rw [afterName?_eq, afterName?_eq, htrim, hskip, fromEquals?_append hsublist]

theorem sublist_of_fromEquals? (h : fromEquals? t = some body) : ['=', '{'].Sublist t := by
  unfold fromEquals? at h
  split at h
  · next cs =>
    split at h
    · next rest hbrace =>
      have hsuffix : ('{' :: rest) <:+ cs := hbrace ▸ List.dropWhile_suffix isBlank
      exact List.cons_sublist_cons.mpr
        ((List.singleton_sublist.mpr (List.mem_cons_self ..)).trans hsuffix.sublist)
    · cases h
  · cases h

theorem skipType_suffix (t : Text) : skipType t <:+ t := by
  unfold skipType
  split
  · exact (List.dropWhile_suffix _).trans (List.suffix_cons ..)
  · exact List.suffix_rfl

theorem sublist_of_afterName? (h : afterName? t = some body) : ['=', '{'].Sublist t := by
  rw [afterName?_eq] at h
  exact (sublist_of_fromEquals? h).trans
    ((skipType_suffix _).trans (List.dropWhile_suffix isBlank)).sublist

theorem afterName?_append_of_some (h : afterName? t = some body) (rest : Text) :
    afterName? (t ++ rest) = some (body ++ rest) := by
  rw [afterName?_append (sublist_of_afterName? h), h]
  rfl

/-! ## Headers -/

theorem atHeader?_append_of_some (h : atHeader? name t = some body) (rest : Text) :
    atHeader? name (t ++ rest) = some (body ++ rest) := by
  obtain ⟨gap, r, hne, hgap, rfl, hr⟩ := atHeader?_eq_some_iff.mp h
  exact atHeader?_eq_some_iff.mpr
    ⟨gap, r ++ rest, hne, hgap, by simp, afterName?_append_of_some hr rest⟩

/-- The front of a header reaches over no later `const`. -/
theorem length_le_of_header {gap d v w : Text} (hgap : Blanks gap) (hd : d ≠ [])
    (h : "const".toList ++ gap ++ w = d ++ ("const".toList ++ v)) :
    ("const".toList ++ gap).length ≤ d.length := by
  by_contra hlt
  obtain ⟨k, hk, hrest⟩ := Text.exists_eq_append_of_length_le h.symm (by omega)
  obtain ⟨c, cs, rfl⟩ := List.exists_cons_of_ne_nil hd
  obtain ⟨d, ds, rfl⟩ := List.exists_cons_of_ne_nil (l := k) (by
    rintro rfl
    rw [List.append_nil] at hk
    exact hlt (congrArg List.length hk).le)
  -- the second `const` would start behind the first letter of the first one, or in the blanks
  obtain ⟨rfl, -⟩ : 'c' = d ∧ _ := List.cons.inj hrest
  obtain ⟨-, htail⟩ : 'c' = c ∧ "onst".toList ++ gap = cs ++ 'c' :: ds := List.cons.inj hk
  have hmem : 'c' ∈ "onst".toList ++ gap := by
    rw [htail]
    exact List.mem_append_right _ (List.mem_cons_self ..)
  rcases List.mem_append.mp hmem with hmem | hmem
  · exact absurd hmem (by decide)
  · exact hgap.not_mem (by decide) hmem

/-- If a later header stands in a text, then a header that starts the text with more behind it starts the
text itself: its name ends before the later one does, and the equals sign and brace of that are there. -/
theorem exists_atHeader?_of_append {d v body' : Text} (hd : d ≠ [])
    (hv : atHeader? name v = some body') (h : atHeader? name (d ++ v ++ rest) = some body) :
    ∃ body, atHeader? name (d ++ v) = some body := by
  obtain ⟨gap, r, hne, hgap, heq, hr⟩ := atHeader?_eq_some_iff.mp h
  obtain ⟨gap', r', -, -, rfl, hr'⟩ := atHeader?_eq_some_iff.mp hv
  have hle : ("const".toList ++ gap).length ≤ d.length := by
    refine length_le_of_header (v := gap' ++ name ++ r' ++ rest) (w := name ++ r) hgap hd ?_
    simpa using heq.symm
  obtain ⟨front, rfl, hfront⟩ : ∃ front, d = "const".toList ++ gap ++ front ∧
      name ++ r = front ++ "const".toList ++ gap' ++ name ++ (r' ++ rest) := by
    have heq' : ("const".toList ++ gap) ++ (name ++ r) =
        d ++ ("const".toList ++ gap' ++ name ++ r' ++ rest) := by
      simpa using heq.symm
    obtain ⟨front, hfront, hrest⟩ := Text.exists_eq_append_of_length_le heq' hle
    exact ⟨front, hfront, by simpa using hrest⟩
  obtain ⟨e, he, rfl⟩ := Text.exists_eq_append_of_length_le hfront (by simp; omega)
  have hsublist : ['=', '{'].Sublist (e ++ r') :=
    (sublist_of_afterName? hr').trans (List.sublist_append_right e r')
  rw [← List.append_assoc, afterName?_append hsublist] at hr
  obtain ⟨z, hz, -⟩ := Option.map_eq_some_iff.mp hr
  refine ⟨z, atHeader?_eq_some_iff.mpr ⟨gap, e ++ r', hne, hgap, ?_, hz⟩⟩
  calc "const".toList ++ gap ++ front ++ ("const".toList ++ gap' ++ name ++ r')
      = "const".toList ++ gap ++ (front ++ "const".toList ++ gap' ++ name) ++ r' := by simp
    _ = "const".toList ++ gap ++ (name ++ e) ++ r' := by rw [he]
    _ = "const".toList ++ gap ++ name ++ (e ++ r') := by simp

/-! ## The search -/

theorem exists_atHeader?_of_openingFrom? {before : Option Char}
    (h : openingFrom? name before t = some body) :
    ∃ d v body', t = d ++ v ∧ atHeader? name v = some body' := by
  induction t generalizing before with
  | nil => cases h
  | cons c cs ih =>
    rw [openingFrom?] at h
    rcases Option.or_eq_some_iff.mp h with h | ⟨-, h⟩
    · split at h
      · exact ⟨[], c :: cs, body, rfl, h⟩
      · cases h
    · obtain ⟨d, v, body', rfl, hv⟩ := ih h
      exact ⟨c :: d, v, body', rfl, hv⟩

/-- The first header of a text stays the first one with more behind it. -/
theorem openingFrom?_append_of_some {before : Option Char}
    (h : openingFrom? name before t = some body) (rest : Text) :
    openingFrom? name before (t ++ rest) = some (body ++ rest) := by
  induction t generalizing before with
  | nil => cases h
  | cons c cs ih =>
    rw [openingFrom?] at h
    rw [List.cons_append, openingFrom?, ← List.cons_append]
    by_cases hboundary : atBoundary before = true
    · rw [if_pos hboundary] at h ⊢
      rcases Option.or_eq_some_iff.mp h with h | ⟨hnone, h⟩
      · rw [atHeader?_append_of_some h, Option.some_or]
      · obtain ⟨d, v, body', rfl, hv⟩ := exists_atHeader?_of_openingFrom? h
        have hstill : atHeader? name (c :: (d ++ v) ++ rest) = none := by
          rw [Option.eq_none_iff_forall_ne_some]
          intro found hsome
          obtain ⟨z, hz⟩ := exists_atHeader?_of_append (List.cons_ne_nil c d) hv hsome
          rw [← List.cons_append, hz] at hnone
          cases hnone
        rw [hstill, Option.none_or, ih h]
    · rw [if_neg hboundary, Option.none_or] at h ⊢
      exact ih h

theorem untilClose?_append_of_some {inner : Nat} (h : untilClose? inner t = some body) (rest : Text) :
    untilClose? inner (t ++ rest) = some body := by
  fun_induction untilClose? inner t generalizing body with
  | case1 inner => cases h
  | case2 inner cs ih =>
    obtain ⟨inside, hcs, rfl⟩ := Option.map_eq_some_iff.mp h
    rw [List.cons_append, untilClose?, ih hcs, Option.map_some]
  | case3 cs =>
    cases h
    rw [List.cons_append, untilClose?]
  | case4 cs n ih =>
    obtain ⟨inside, hcs, rfl⟩ := Option.map_eq_some_iff.mp h
    rw [List.cons_append, untilClose?]
    show (untilClose? n (cs ++ rest)).map _ = _
    rw [ih hcs, Option.map_some]
  | case5 inner c cs hopen hclose ih =>
    obtain ⟨inside, hcs, rfl⟩ := Option.map_eq_some_iff.mp h
    rw [List.cons_append, untilClose?, ih hcs, Option.map_some]
    · exact hopen
    · exact hclose

end ObjectLiteral

open ObjectLiteral

/-- **What follows the object does not count.** If a header of the object is found in a text and the
closing brace of the object is reached, then more text behind it, be it further declarations of the same
object, changes neither the body that is read nor the table, nor the failure to make one. -/
theorem Table.ofModule?_append {name source fromBody body : Text}
    (hopen : opening? name source = some fromBody) (hclose : untilClose? 0 fromBody = some body)
    (rest : Text) :
    body? name (source ++ rest) = some body ∧
      Table.ofModule? name (source ++ rest) = Table.ofModule? name source := by
  have hbody : body? name source = some body := by
    rw [body?, hopen, Option.bind_some, hclose]
  have hmore : body? name (source ++ rest) = some body := by
    rw [body?, opening?, openingFrom?_append_of_some hopen, Option.bind_some,
      untilClose?_append_of_some hclose]
  refine ⟨hmore, ?_⟩
  rw [Table.ofModule?, Table.ofModule?, hmore, hbody]

def firstObject : Text := "const K = \x7b a: \"x\" \x7d;".toList

def secondObject : Text := "\nconst K = \x7b b: \"y\" \x7d;".toList

/-- With a second declaration of the same object behind the first. -/
theorem Table.ofModule?_append_secondObject :
    opening? ['K'] firstObject = some " a: \"x\" \x7d;".toList ∧
      untilClose? 0 " a: \"x\" \x7d;".toList = some " a: \"x\" ".toList ∧
      body? ['K'] (firstObject ++ secondObject) = some " a: \"x\" ".toList ∧
      Table.ofModule? ['K'] (firstObject ++ secondObject) = Table.ofModule? ['K'] firstObject := by
  have hopen : opening? ['K'] firstObject = some " a: \"x\" \x7d;".toList := by decide
  have hclose : untilClose? 0 " a: \"x\" \x7d;".toList = some " a: \"x\" ".toList := by decide
  exact ⟨hopen, hclose, Table.ofModule?_append hopen hclose secondObject⟩

end Constify
