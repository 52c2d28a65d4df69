import Constify.Proofs.Report.Grammar

/-!
# Reading strings

* `Json.unit?`, `Json.codePoint?` : the code unit, and the character of one or two code units, at the front of a text;
* `Json.char?_eq_some_iff` : a character is read from the texts that may stand for it in a string;
* `Json.body?_eq_some_iff` : what a string holds is read up to the quote that ends it.
-/

namespace Constify.Json

/-! ## Code units -/

theorem toNat_sub_lt {a b c : Char} {k : Nat} (h : c ≤ b) (hk : b.toNat - a.toNat < k) : c.toNat - a.toNat < k :=
  Nat.lt_of_le_of_lt (Nat.sub_le_sub_right h _) hk

theorem hexValue?_lt {c : Char} {n : Nat} (h : hexValue? c = some n) : n < 16 := by
  unfold hexValue? at h
  split at h
  · next hc =>
    cases h
    exact toNat_sub_lt hc.2 (by decide)
  · split at h
    · next hc =>
      cases h
      exact Nat.add_lt_add_right (toNat_sub_lt (k := 6) hc.2 (by decide)) 10
    · split at h
      · next hc =>
        cases h
        exact Nat.add_lt_add_right (toNat_sub_lt (k := 6) hc.2 (by decide)) 10
      · cases h

theorem hexUnit?_spec {h : Text} {n : Nat} (hn : hexUnit? h = some n) : h.length = 4 ∧ n < 0x10000 := by
  unfold hexUnit? at hn
  split at hn
  · next a b c d =>
    simp only [Option.bind_eq_bind, Option.bind_eq_some_iff, Option.pure_def, Option.some.injEq] at hn
    obtain ⟨i, hi, j, hj, k, hk, l, hl, rfl⟩ := hn
    have := hexValue?_lt hi
    have := hexValue?_lt hj
    have := hexValue?_lt hk
    have := hexValue?_lt hl
    exact ⟨rfl, by omega⟩
  · cases hn

/-- The code unit at the front of a text. -/
def unit? (t : Text) : Option (Nat × Text) := (hexUnit? (t.take 4)).map fun n => (n, t.drop 4)

theorem unit?_eq_some_iff {t rest : Text} {n : Nat} :
    unit? t = some (n, rest) ↔ ∃ h, hexUnit? h = some n ∧ t = h ++ rest := by
  constructor
  · intro h
    obtain ⟨m, hm, heq⟩ := Option.map_eq_some_iff.mp h
    cases heq
    exact ⟨t.take 4, hm, (List.take_append_drop 4 t).symm⟩
  · rintro ⟨h, hn, rfl⟩
    have hlen := (hexUnit?_spec hn).1
    rw [unit?, List.take_left' hlen, List.drop_left' hlen, hn]
    rfl

/-- The code units that are characters by themselves. -/
theorem isValidChar_iff {n : Nat} (h : n < 0x10000) : n.isValidChar ↔ isHigh n = false ∧ isLow n = false := by
  simp only [isHigh, isLow, Bool.and_eq_false_iff, decide_eq_false_iff_not]
  unfold Nat.isValidChar
  omega

theorem combine_valid {high low : Nat} (hhigh : isHigh high = true) (hlow : isLow low = true) :
    (combine high low).isValidChar := by
  simp only [isHigh, isLow, Bool.and_eq_true, decide_eq_true_eq] at hhigh hlow
  unfold combine Nat.isValidChar
  omega

theorem toNat_ofNat {n : Nat} (h : n.isValidChar) : (Char.ofNat n).toNat = n := by
  rw [Char.ofNat, dif_pos h]
  rfl

/-- The character whose code units stand at the front of a text, which follows the first backslash and `u`. -/
def codePoint? (t : Text) : Option (Char × Text) := do
  let (n, rest) ← unit? t
  if isHigh n then do
    let (m, rest) ← (Text.after? ['\\', 'u'] rest).bind unit?
    if isLow m then some (Char.ofNat (combine n m), rest) else none
  else if isLow n then none
  else some (Char.ofNat n, rest)

theorem codePoint?_unit {c : Char} {h : Text} (hc : hexUnit? h = some c.toNat) (rest : Text) :
    codePoint? (h ++ rest) = some (c, rest) := by
  have hunit : unit? (h ++ rest) = some (c.toNat, rest) := unit?_eq_some_iff.mpr ⟨h, hc, rfl⟩
  obtain ⟨hhigh, hlow⟩ := (isValidChar_iff (hexUnit?_spec hc).2).mp c.valid
  simp [codePoint?, hunit, hhigh, hlow, Char.ofNat_toNat]

theorem codePoint?_pair {c : Char} {h h' : Text} {high low : Nat} (hh : hexUnit? h = some high)
    (hh' : hexUnit? h' = some low) (hhigh : isHigh high = true) (hlow : isLow low = true)
    (hc : c.toNat = combine high low) (rest : Text) :
    codePoint? (h ++ '\\' :: 'u' :: (h' ++ rest)) = some (c, rest) := by
  have hunit : unit? (h ++ '\\' :: 'u' :: (h' ++ rest)) = some (high, '\\' :: 'u' :: (h' ++ rest)) :=
    unit?_eq_some_iff.mpr ⟨h, hh, rfl⟩
  have hafter : Text.after? ['\\', 'u'] ('\\' :: 'u' :: (h' ++ rest)) = some (h' ++ rest) :=
    Text.after?_eq_some_iff.mpr rfl
  have hunit' : unit? (h' ++ rest) = some (low, rest) := unit?_eq_some_iff.mpr ⟨h', hh', rfl⟩
  simp [codePoint?, hunit, hhigh, hafter, hunit', hlow, ← hc, Char.ofNat_toNat]

theorem exists_charForm_of_codePoint? {t rest : Text} {c : Char} (h : codePoint? t = some (c, rest)) :
    ∃ u, CharForm c ('\\' :: 'u' :: u) ∧ t = u ++ rest := by
  simp only [codePoint?, Option.bind_eq_bind, Option.bind_eq_some_iff, Prod.exists] at h
  obtain ⟨n, r, hunit, h⟩ := h
  obtain ⟨x, hx, rfl⟩ := unit?_eq_some_iff.mp hunit
  split at h
  · next hhigh =>
    simp only [Option.bind_eq_some_iff, Prod.exists] at h
    obtain ⟨m, r', ⟨r'', hafter, hunit'⟩, h⟩ := h
    rw [Text.after?_eq_some_iff.mp hafter]
    obtain ⟨y, hy, rfl⟩ := unit?_eq_some_iff.mp hunit'
    split at h
    · next hlow =>
      obtain ⟨rfl, rfl⟩ := Prod.mk.inj (Option.some.inj h)
      exact ⟨_, .pair hx hy hhigh hlow (toNat_ofNat (combine_valid hhigh hlow)), by simp⟩
    · cases h
  · next hhigh =>
    split at h
    · cases h
    · next hlow =>
      obtain ⟨rfl, rfl⟩ := Prod.mk.inj (Option.some.inj h)
      have hvalid := (isValidChar_iff (hexUnit?_spec hx).2).mpr ⟨by simpa using hhigh, by simpa using hlow⟩
      refine ⟨x, .unit ?_, rfl⟩
      rw [toNat_ofNat hvalid, hx]

/-! ## Strings -/

/-- The character that is written at the front of what a string holds. -/
def char? : Text → Option (Char × Text)
  | '\\' :: 'u' :: t => codePoint? t
  | '\\' :: letter :: t => (shortEscapes.lookup letter).map fun c => (c, t)
  | c :: t => if c < ' ' ∨ c = '"' ∨ c = '\\' then none else some (c, t)
  | [] => none

theorem lookup_shortEscapes_iff {letter c : Char} :
    shortEscapes.lookup letter = some c ↔ (letter, c) ∈ shortEscapes := by
  have hone : ∀ p ∈ shortEscapes, shortEscapes.lookup p.1 = some p.2 := by decide
  refine ⟨fun h => ?_, fun h => hone _ h⟩
  obtain ⟨l, r, heq, -⟩ := List.lookup_eq_some_iff.mp h
  exact heq ▸ List.mem_append_right l (List.mem_cons_self ..)

theorem char?_eq_some_iff {t rest : Text} {c : Char} :
    char? t = some (c, rest) ↔ ∃ u, CharForm c u ∧ t = u ++ rest := by
  constructor
  · intro h
    unfold char? at h
    split at h
    · obtain ⟨u, hu, rfl⟩ := exists_charForm_of_codePoint? h
      exact ⟨_, hu, rfl⟩
    · next letter t _ =>
      obtain ⟨d, hd, heq⟩ := Option.map_eq_some_iff.mp h
      cases heq
      exact ⟨_, .short (lookup_shortEscapes_iff.mp hd), rfl⟩
    · split at h
      · cases h
      · next hplain =>
        simp only [not_or] at hplain
        cases h
        exact ⟨_, .plain (Char.not_lt.mp hplain.1) hplain.2.1 hplain.2.2, rfl⟩
    · cases h
  · rintro ⟨u, hu, rfl⟩
    cases hu with
    | plain hle hquote hslash => simp [char?, hslash, hle, hquote]
    | @short letter _ hmem =>
      have hu : letter ≠ 'u' := by
        have hletters : ∀ p ∈ shortEscapes, p.1 ≠ 'u' := by decide
        exact hletters _ hmem
      change char? ('\\' :: letter :: rest) = _
      rw [char?, lookup_shortEscapes_iff.mpr hmem]
      · rfl
      · exact hu
    | unit hc => exact codePoint?_unit hc rest
    | pair hh hh' hhigh hlow hc =>
      simpa [char?] using codePoint?_pair hh hh' hhigh hlow hc rest

theorem CharForm.exists_cons {c : Char} {u : Text} (h : CharForm c u) : ∃ d v, u = d :: v ∧ d ≠ '"' := by
  cases h with
  | plain _ hquote _ => exact ⟨_, _, rfl, hquote⟩
  | short _ => exact ⟨_, _, rfl, by decide⟩
  | unit _ => exact ⟨_, _, rfl, by decide⟩
  | pair _ _ _ _ _ => exact ⟨_, _, rfl, by decide⟩

theorem length_lt_of_char? {t rest : Text} {c : Char} (h : char? t = some (c, rest)) : rest.length < t.length := by
  obtain ⟨u, hu, rfl⟩ := char?_eq_some_iff.mp h
  obtain ⟨d, v, rfl, -⟩ := hu.exists_cons
  simp only [List.cons_append, List.length_cons, List.length_append]
  omega

/-- What a string holds, up to the quote that ends it. -/
def body? (t : Text) : Option (Text × Text) :=
  if t.head? = some '"' then some ([], t.tail)
  else
    match _h : char? t with
    | none => none
    | some (c, rest) => (body? rest).map fun p => (c :: p.1, p.2)
termination_by t.length
decreasing_by exact length_lt_of_char? _h

theorem body?_eq (t : Text) : body? t =
    if t.head? = some '"' then some ([], t.tail)
    else (char? t).bind fun p => (body? p.2).map fun q => (p.1 :: q.1, q.2) := by
  rw [body?]
  split
  · rfl
  · split <;> simp [*]

theorem body?_eq_some_iff {t s rest : Text} :
    body? t = some (s, rest) ↔ ∃ b, BodyForm s b ∧ t = b ++ '"' :: rest := by
  constructor
  · intro h
    induction t using body?.induct generalizing s with
    | case1 t hquote =>
      rw [body?_eq, if_pos hquote] at h
      obtain ⟨r, rfl⟩ := List.head?_eq_some_iff.mp hquote
      cases h
      exact ⟨[], .nil, rfl⟩
    | case2 t hquote hnone =>
      rw [body?_eq, if_neg hquote, hnone] at h
      cases h
    | case3 t hquote c r hsome ih =>
      rw [body?_eq, if_neg hquote, hsome] at h
      obtain ⟨⟨s', rest'⟩, hbody, heq⟩ := Option.map_eq_some_iff.mp h
      cases heq
      obtain ⟨u, hu, rfl⟩ := char?_eq_some_iff.mp hsome
      obtain ⟨b, hb, rfl⟩ := ih hbody
      exact ⟨u ++ b, .cons hu hb, by simp⟩
  · rintro ⟨b, hb, rfl⟩
    induction hb with
    | nil => simp [body?_eq]
    | @cons c s u b hu hb ih =>
      have hchar : char? (u ++ b ++ '"' :: rest) = some (c, b ++ '"' :: rest) :=
        char?_eq_some_iff.mpr ⟨u, hu, List.append_assoc ..⟩
      obtain ⟨d, v, rfl, hd⟩ := hu.exists_cons
      rw [body?_eq, if_neg (by simpa using hd), hchar, Option.bind_some, ih, Option.map_some]

end Constify.Json
