import Mathlib.Data.List.TakeWhile
import Constify.Proofs.Report.Strings

/-!
# Reading JSON

* `Json.digits?`, `Json.list?`, `Json.member?`, `Json.value?` : readers, which give a value and what
  is left of the text;
* `Json.Reads` : a reader finds the texts of a form at the front of a text, and nothing else;
* `Json.decode?` : the value of a whole text, with gaps around it;
* `Json.decode?_eq_some_iff` : the texts that are decoded are those that denote a value.
-/

namespace Constify.Json

/-! ## Numbers -/

def NoDigit (t : Text) : Prop := ∀ c ∈ t.head?, c.isDigit = false

/-- The number at the front of a text. -/
def digits? (t : Text) : Option (Nat × Text) :=
  let digits := t.takeWhile Char.isDigit
  if digits = [] ∨ (digits.head? = some '0' ∧ digits ≠ ['0']) then none
  else some (Nat.ofDigitChars 10 digits 0, t.dropWhile Char.isDigit)

theorem exists_numberForm_of_digits? {t rest : Text} {n : Nat} (h : digits? t = some (n, rest)) :
    ∃ u, NumberForm n u ∧ t = u ++ rest := by
  unfold digits? at h
  dsimp only at h
  split at h
  · cases h
  · next hdigits =>
    simp only [not_or, not_and, not_not] at hdigits
    cases h
    exact ⟨t.takeWhile Char.isDigit, ⟨hdigits.1, fun c hc => List.mem_takeWhile_imp hc, hdigits.2, rfl⟩,
      List.takeWhile_append_dropWhile.symm⟩

theorem digits?_append {u rest : Text} {n : Nat} (hu : NumberForm n u) (hrest : NoDigit rest) :
    digits? (u ++ rest) = some (n, rest) := by
  obtain ⟨hne, hdigits, hzero, rfl⟩ := hu
  have htake : rest.takeWhile Char.isDigit = [] := by
    cases rest with
    | nil => rfl
    | cons c rest => exact List.takeWhile_cons_of_neg (by simp [hrest c rfl])
  have hdrop : rest.dropWhile Char.isDigit = rest := by
    cases rest with
    | nil => rfl
    | cons c rest => exact List.dropWhile_cons_of_neg (by simp [hrest c rfl])
  rw [digits?, List.takeWhile_append_of_pos hdigits, List.dropWhile_append_of_pos hdigits, htake, hdrop,
    List.append_nil, if_neg]
  simp only [not_or, not_and, not_not]
  exact ⟨hne, hzero⟩

/-! ## Gaps -/

def skipGap (t : Text) : Text := t.dropWhile isGap

theorem exists_eq_append_skipGap (t : Text) : ∃ a, Gap a ∧ t = a ++ skipGap t :=
  ⟨t.takeWhile isGap, fun _ hc => List.mem_takeWhile_imp hc, List.takeWhile_append_dropWhile.symm⟩

theorem skipGap_append {a : Text} (h : Gap a) (t : Text) : skipGap (a ++ t) = skipGap t :=
  List.dropWhile_append_of_pos h

theorem skipGap_cons {c : Char} (h : isGap c = false) (t : Text) : skipGap (c :: t) = c :: t :=
  List.dropWhile_cons_of_neg (by simp [h])

theorem isDigit_of_isGap {c : Char} (h : isGap c = true) : c.isDigit = false := by
  simp only [isGap, Bool.or_eq_true, beq_iff_eq] at h
  rcases h with ((rfl | rfl) | rfl) | rfl <;> rfl

theorem noDigit_of_gap {a : Text} (h : Gap a) {t : Text} (ht : NoDigit t) : NoDigit (a ++ t) := by
  cases a with
  | nil => exact ht
  | cons c a =>
    intro d hd
    cases hd
    exact isDigit_of_isGap (h c (List.mem_cons_self ..))

/-! ## Arrays and objects -/

/-- The reader finds the texts of the form at the front of a text, unless they are longer than `n`, and nothing else.
A digit behind a text of the form could belong to it. -/
structure Reads {α : Type} (n : Nat) (read? : Text → Option (α × Text)) (form : α → Text → Prop) : Prop where
  sound : ∀ {t rest : Text} {a : α}, read? t = some (a, rest) → ∃ u, form a u ∧ t = u ++ rest
  complete : ∀ {u rest : Text} {a : α}, form a u → u.length ≤ n → NoDigit rest → read? (u ++ rest) = some (a, rest)

/-- Items with commas between them, up to the closing bracket. There is at least one, and at most `n` are read. -/
def items? {α : Type} (item? : Text → Option (α × Text)) (closing : Char) : (n : Nat) → Text → Option (List α × Text)
  | 0, _ => none
  | n + 1, t =>
    (item? (skipGap t)).bind fun p =>
      match skipGap p.2 with
      | [] => none
      | c :: rest =>
        if c = closing then some ([p.1], rest)
        else if c = ',' then (items? item? closing n rest).map fun q => (p.1 :: q.1, q.2)
        else none

/-- What follows the opening bracket, up to the closing one. -/
def list? {α : Type} (item? : Text → Option (α × Text)) (closing : Char) (t : Text) : Option (List α × Text) :=
  if (skipGap t).head? = some closing then some ([], (skipGap t).tail) else items? item? closing t.length t

section Lists

variable {α : Type} {n : Nat} {item? : Text → Option (α × Text)} {form : α → Text → Prop}

theorem separated_cons {p : Text → Prop} {ps : List (Text → Prop)} (hps : ps ≠ []) {u r : Text} (hu : Padded p u)
    (hr : Separated ps r) : Separated (p :: ps) (u ++ ',' :: r) := by
  cases ps with
  | nil => exact absurd rfl hps
  | cons q ps => exact ⟨u, r, hu, hr, rfl⟩

theorem length_le_of_separated {ps : List (Text → Prop)} {u : Text} (h : Separated ps u) :
    ps.length ≤ u.length + 1 := by
  induction ps generalizing u with
  | nil => exact Nat.zero_le _
  | cons p ps ih =>
    cases ps with
    | nil => exact Nat.le_add_left 1 _
    | cons q ps =>
      obtain ⟨v, r, -, hr, rfl⟩ := h
      have := ih hr
      simp only [List.length_cons, List.length_append] at this ⊢
      omega

theorem items?_sound (hread : Reads n item? form) {closing : Char} {k : Nat} {t rest : Text} {as : List α}
    (h : items? item? closing k t = some (as, rest)) :
    as ≠ [] ∧ ∃ u, Separated (as.map form) u ∧ t = u ++ closing :: rest := by
  induction k generalizing t as with
  | zero => cases h
  | succ k ih =>
    rw [items?] at h
    obtain ⟨⟨a, r⟩, hitem, hrest⟩ := Option.bind_eq_some_iff.mp h
    obtain ⟨u, hu, heq⟩ := hread.sound hitem
    obtain ⟨x, hx, ht⟩ := exists_eq_append_skipGap t
    obtain ⟨y, hy, hr⟩ := exists_eq_append_skipGap r
    have hpadded : Padded (form a) (x ++ (u ++ y)) := ⟨x, u, y, hx, hu, hy, rfl⟩
    rw [heq, hr] at ht
    dsimp only at hrest
    split at hrest
    · cases hrest
    · next c r' hskip =>
      rw [hskip] at ht
      split at hrest
      · next hclosing =>
        subst hclosing
        cases hrest
        exact ⟨by simp, _, hpadded, by simpa using ht⟩
      · split at hrest
        · next hcomma =>
          subst hcomma
          obtain ⟨⟨as', rest'⟩, hitems, heq'⟩ := Option.map_eq_some_iff.mp hrest
          cases heq'
          obtain ⟨hne, v, hv, rfl⟩ := ih hitems
          exact ⟨by simp, _, separated_cons (by simpa using hne) hpadded hv, by simpa using ht⟩
        · cases hrest

theorem list?_sound (hread : Reads n item? form) {closing : Char} {t rest : Text} {as : List α}
    (h : list? item? closing t = some (as, rest)) :
    ∃ u, Separated (as.map form) u ∧ t = u ++ closing :: rest := by
  unfold list? at h
  split at h
  · next hclosing =>
    obtain ⟨r, hr⟩ := List.head?_eq_some_iff.mp hclosing
    obtain ⟨x, hx, ht⟩ := exists_eq_append_skipGap t
    cases h
    exact ⟨x, hx, by rw [hr] at ht ⊢; exact ht⟩
  · exact (items?_sound hread h).2

/-- The closing bracket is no part of what stands before it: neither a gap nor a digit nor a comma, and no item
begins with it. -/
structure Ends (closing : Char) (form : α → Text → Prop) : Prop where
  not_gap : isGap closing = false
  not_digit : closing.isDigit = false
  not_comma : closing ≠ ','
  start : ∀ {a : α} {u : Text}, form a u → ∃ c v, u = c :: v ∧ isGap c = false ∧ c ≠ closing

theorem item?_padded (hread : Reads n item? form) {closing : Char} (hends : Ends closing form) {a : α} {u : Text}
    (hu : Padded (form a) u) (hn : u.length ≤ n) {c : Char} (hgap : isGap c = false) (hdigit : c.isDigit = false)
    (rest : Text) :
    (skipGap (u ++ c :: rest)).head? ≠ some closing ∧
      ∃ r, item? (skipGap (u ++ c :: rest)) = some (a, r) ∧ skipGap r = c :: rest := by
  obtain ⟨x, v, y, hx, hv, hy, rfl⟩ := hu
  obtain ⟨d, w, hdw, hd, hne⟩ := hends.start hv
  have hskip : skipGap (x ++ (v ++ y) ++ c :: rest) = v ++ (y ++ c :: rest) := by
    rw [List.append_assoc, List.append_assoc, skipGap_append hx, hdw, List.cons_append, skipGap_cons hd]
  rw [hskip]
  refine ⟨by simpa [hdw] using hne, y ++ c :: rest, hread.complete hv ?_ (noDigit_of_gap hy ?_), ?_⟩
  · simp only [List.length_append] at hn
    omega
  · intro e he
    cases he
    exact hdigit
  · rw [skipGap_append hy, skipGap_cons hgap]

theorem items?_complete (hread : Reads n item? form) {closing : Char} (hends : Ends closing form) {as : List α}
    (has : as ≠ []) {u : Text} (hu : Separated (as.map form) u) (hn : u.length ≤ n) {k : Nat} (hk : as.length ≤ k)
    (rest : Text) : items? item? closing k (u ++ closing :: rest) = some (as, rest) := by
  induction as generalizing u k with
  | nil => exact absurd rfl has
  | cons a as ih =>
    obtain ⟨k, rfl⟩ := Nat.exists_eq_add_one_of_ne_zero (Nat.ne_zero_of_lt hk)
    cases as with
    | nil =>
      obtain ⟨-, r, hitem, hskip⟩ := item?_padded hread hends hu hn hends.not_gap hends.not_digit rest
      rw [items?, hitem, Option.bind_some, hskip]
      exact if_pos rfl
    | cons b as =>
      obtain ⟨v, t, hv, ht, rfl⟩ := hu
      simp only [List.length_append, List.length_cons] at hn
      obtain ⟨-, r, hitem, hskip⟩ :=
        item?_padded hread hends hv (by omega) (c := ',') rfl rfl (t ++ closing :: rest)
      rw [List.append_assoc, List.cons_append, items?, hitem, Option.bind_some, hskip]
      dsimp only
      rw [if_neg hends.not_comma.symm, if_pos rfl, ih (by simp) ht (by omega) (Nat.le_of_succ_le_succ hk)]
      rfl

theorem list?_complete (hread : Reads n item? form) {closing : Char} (hends : Ends closing form) {as : List α}
    {u : Text} (hu : Separated (as.map form) u) (hn : u.length ≤ n) (rest : Text) :
    list? item? closing (u ++ closing :: rest) = some (as, rest) := by
  have hlength := length_le_of_separated hu
  unfold list?
  cases as with
  | nil =>
    rw [skipGap_append hu, skipGap_cons hends.not_gap]
    exact if_pos rfl
  | cons a as =>
    have hfirst : (skipGap (u ++ closing :: rest)).head? ≠ some closing := by
      cases as with
      | nil => exact (item?_padded hread hends hu hn hends.not_gap hends.not_digit rest).1
      | cons b as =>
        obtain ⟨v, t, hv, -, rfl⟩ := hu
        simp only [List.length_append] at hn
        rw [List.append_assoc, List.cons_append]
        exact (item?_padded hread hends hv (by omega) rfl rfl _).1
    rw [if_neg hfirst]
    refine items?_complete hread hends (by simp) hu hn ?_ rest
    simp only [List.length_map, List.length_append, List.length_cons] at hlength ⊢
    omega

end Lists

/-! ## Values -/

/-- A member of an object: a key in quotes, a colon and a value. -/
def member? (value? : Text → Option (Json × Text)) (t : Text) : Option ((Text × Json) × Text) := do
  let t ← Text.after? ['"'] t
  let (key, t) ← body? t
  let t ← Text.after? [':'] (skipGap t)
  let (j, t) ← value? (skipGap t)
  return ((key, j), t)

/-- A value in which values stand within one another at most `n` deep. -/
def value? : (n : Nat) → Text → Option (Json × Text)
  | 0, _ => none
  | n + 1, t =>
    match t with
    | '"' :: t => (body? t).map fun p => (string p.1, p.2)
    | '[' :: t => (list? (value? n) ']' t).map fun p => (array p.1, p.2)
    | '{' :: t => (list? (member? (value? n)) '}' t).map fun p => (object p.1, p.2)
    | 't' :: 'r' :: 'u' :: 'e' :: t => some (boolean true, t)
    | 'f' :: 'a' :: 'l' :: 's' :: 'e' :: t => some (boolean false, t)
    | t => (digits? t).map fun p => (number p.1, p.2)

/-- A value begins neither with a gap nor with the end of an array. -/
theorem exists_cons_of_denotes {j : Json} {u : Text} (h : Denotes j u) :
    ∃ c v, u = c :: v ∧ isGap c = false ∧ c ≠ ']' := by
  cases j with
  | string s =>
    obtain ⟨b, -, rfl⟩ := h
    exact ⟨_, _, rfl, rfl, by decide⟩
  | number n =>
    obtain ⟨hne, hdigits, -⟩ := h
    obtain ⟨c, v, rfl⟩ := List.exists_cons_of_ne_nil hne
    have hc : c.isDigit = true := hdigits c (List.mem_cons_self ..)
    refine ⟨c, v, rfl, Bool.eq_false_iff.mpr fun hgap => ?_, ?_⟩
    · rw [isDigit_of_isGap hgap] at hc
      cases hc
    · rintro rfl
      cases hc
  | boolean b =>
    rw [Denotes] at h
    subst h
    cases b <;> exact ⟨_, _, rfl, rfl, by decide⟩
  | array items =>
    obtain ⟨v, -, rfl⟩ := h
    exact ⟨_, _, rfl, rfl, by decide⟩
  | object members =>
    obtain ⟨v, -, rfl⟩ := h
    exact ⟨_, _, rfl, rfl, by decide⟩

theorem skipGap_of_denotes {j : Json} {u : Text} (h : Denotes j u) (t : Text) : skipGap (u ++ t) = u ++ t := by
  obtain ⟨c, v, rfl, hc, -⟩ := exists_cons_of_denotes h
  exact skipGap_cons hc _

theorem ends_denotes : Ends ']' Denotes where
  not_gap := rfl
  not_digit := rfl
  not_comma := by decide
  start := exists_cons_of_denotes

theorem ends_memberForm : Ends '}' fun (m : Text × Json) u => MemberForm m.1 (Denotes m.2) u where
  not_gap := rfl
  not_digit := rfl
  not_comma := by decide
  start h := by
    obtain ⟨k, a, b, u, ⟨body, -, rfl⟩, -, -, -, rfl⟩ := h
    exact ⟨_, _, rfl, rfl, by decide⟩

theorem reads_member {n : Nat} {read? : Text → Option (Json × Text)} (hread : Reads n read? Denotes) :
    Reads n (member? read?) fun m u => MemberForm m.1 (Denotes m.2) u where
  sound := by
    intro t rest m h
    simp only [member?, Option.bind_eq_bind, Option.bind_eq_some_iff, Text.after?_eq_some_iff, Prod.exists,
      Option.pure_def, Option.some.injEq, Prod.mk.injEq] at h
    obtain ⟨t₁, rfl, key, t₂, hbody, t₃, hcolon, j, t₄, hvalue, rfl, rfl⟩ := h
    obtain ⟨b, hb, rfl⟩ := body?_eq_some_iff.mp hbody
    obtain ⟨u, hu, ht₃⟩ := hread.sound hvalue
    obtain ⟨x, hx, ht₂⟩ := exists_eq_append_skipGap t₂
    obtain ⟨y, hy, hskip⟩ := exists_eq_append_skipGap t₃
    rw [ht₃] at hskip
    rw [hcolon, hskip] at ht₂
    refine ⟨_, ⟨'"' :: (b ++ ['"']), x, y, u, ⟨b, hb, rfl⟩, hx, hy, hu, rfl⟩, ?_⟩
    rw [ht₂]
    simp
  complete := by
    rintro _ rest ⟨key, j⟩ ⟨k, x, y, u, ⟨b, hb, rfl⟩, hx, hy, hu, rfl⟩ hn hrest
    have hbody : body? (b ++ '"' :: (x ++ ':' :: (y ++ (u ++ rest)))) = some (key, x ++ ':' :: (y ++ (u ++ rest))) :=
      body?_eq_some_iff.mpr ⟨b, hb, rfl⟩
    have hcolon : skipGap (x ++ ':' :: (y ++ (u ++ rest))) = ':' :: (y ++ (u ++ rest)) := by
      rw [skipGap_append hx, skipGap_cons rfl]
    have hvalue : read? (skipGap (y ++ (u ++ rest))) = some (j, rest) := by
      rw [skipGap_append hy, skipGap_of_denotes hu]
      refine hread.complete hu ?_ hrest
      simp only [List.length_append, List.length_cons] at hn
      omega
    simp [member?, Text.after?, hbody, hcolon, hvalue]

theorem value?_of_digit (n : Nat) {c : Char} (hc : c.isDigit = true) (t : Text) :
    value? (n + 1) (c :: t) = (digits? (c :: t)).map fun p => (number p.1, p.2) := by
  unfold value?
  split
  case h_6 => rfl
  all_goals
    next heq =>
      rw [(List.cons.inj heq).1] at hc
      cases hc

/-- What is read is a text of the value, if that holds one level further down. -/
theorem value?_succ_sound {n : Nat} (hread : Reads n (value? n) Denotes) {t rest : Text} {j : Json}
    (h : value? (n + 1) t = some (j, rest)) : ∃ u, Denotes j u ∧ t = u ++ rest := by
  unfold value? at h
  split at h
  · obtain ⟨⟨s, t'⟩, hbody, heq⟩ := Option.map_eq_some_iff.mp h
    cases heq
    obtain ⟨b, hb, rfl⟩ := body?_eq_some_iff.mp hbody
    exact ⟨_, ⟨b, hb, rfl⟩, by simp⟩
  · obtain ⟨⟨items, t'⟩, hlist, heq⟩ := Option.map_eq_some_iff.mp h
    cases heq
    obtain ⟨u, hu, rfl⟩ := list?_sound hread hlist
    rw [← itemForms_eq_map] at hu
    exact ⟨_, ⟨u, hu, rfl⟩, by simp⟩
  · obtain ⟨⟨members, t'⟩, hlist, heq⟩ := Option.map_eq_some_iff.mp h
    cases heq
    obtain ⟨u, hu, rfl⟩ := list?_sound (reads_member hread) hlist
    rw [← memberForms_eq_map] at hu
    exact ⟨_, ⟨u, hu, rfl⟩, by simp⟩
  · cases h
    exact ⟨_, rfl, rfl⟩
  · cases h
    exact ⟨_, rfl, rfl⟩
  · obtain ⟨⟨k, t'⟩, hdigits, heq⟩ := Option.map_eq_some_iff.mp h
    cases heq
    exact exists_numberForm_of_digits? hdigits

/-- A text of a value is read, if the texts of its parts are. These are shorter. -/
theorem value?_succ_complete {n : Nat} (hread : Reads n (value? n) Denotes) {u rest : Text} {j : Json}
    (hu : Denotes j u) (hn : u.length ≤ n + 1) (hrest : NoDigit rest) :
    value? (n + 1) (u ++ rest) = some (j, rest) := by
  cases j with
  | string s =>
    obtain ⟨b, hb, rfl⟩ := hu
    have hbody : body? (b ++ '"' :: rest) = some (s, rest) := body?_eq_some_iff.mpr ⟨b, hb, rfl⟩
    simp [value?, hbody]
  | number k =>
    have hdigits := digits?_append hu hrest
    obtain ⟨hne, hall, -⟩ := hu
    obtain ⟨c, v, rfl⟩ := List.exists_cons_of_ne_nil hne
    rw [List.cons_append] at hdigits ⊢
    rw [value?_of_digit n (hall c (List.mem_cons_self ..)), hdigits]
    rfl
  | boolean b =>
    rw [Denotes] at hu
    subst hu
    cases b <;> rfl
  | array items =>
    obtain ⟨v, hv, rfl⟩ := hu
    rw [itemForms_eq_map] at hv
    simp only [List.length_cons, List.length_append] at hn
    have hlist := list?_complete hread ends_denotes hv (by omega) rest
    simp [value?, hlist]
  | object members =>
    obtain ⟨v, hv, rfl⟩ := hu
    rw [memberForms_eq_map] at hv
    simp only [List.length_cons, List.length_append] at hn
    have hlist := list?_complete (reads_member hread) ends_memberForm hv (by omega) rest
    simp [value?, hlist]

theorem reads_value (n : Nat) : Reads n (value? n) Denotes := by
  induction n with
  | zero =>
    constructor
    · intro _ _ _ h
      cases h
    · intro u _ _ hu hn _
      obtain ⟨c, v, rfl, -⟩ := exists_cons_of_denotes hu
      cases hn
  | succ n ih => exact ⟨value?_succ_sound ih, value?_succ_complete ih⟩

/-! ## Whole texts -/

/-- The value that a text denotes, with gaps around it. -/
def decode? (t : Text) : Option Json :=
  (value? t.length (skipGap t)).bind fun p => if Gap p.2 then some p.1 else none

/-- **The texts that are decoded are those that denote a value.** -/
theorem decode?_eq_some_iff {t : Text} {j : Json} : decode? t = some j ↔ Padded (Denotes j) t := by
  constructor
  · intro h
    obtain ⟨⟨i, b⟩, hvalue, hrest⟩ := Option.bind_eq_some_iff.mp h
    dsimp only at hrest
    split at hrest
    · next hgap =>
      cases hrest
      obtain ⟨u, hu, hskip⟩ := (reads_value _).sound hvalue
      obtain ⟨a, ha, ht⟩ := exists_eq_append_skipGap t
      rw [hskip] at ht
      exact ⟨a, u, b, ha, hu, hgap, ht⟩
    · cases hrest
  · rintro ⟨a, u, b, ha, hu, hb, rfl⟩
    have hrest : NoDigit b := by
      rw [← List.append_nil b]
      exact noDigit_of_gap hb fun c hc => by cases hc
    have hlength : u.length ≤ (a ++ (u ++ b)).length := by
      simp only [List.length_append]
      omega
    rw [decode?, skipGap_append ha, skipGap_of_denotes hu, (reads_value _).complete hu hlength hrest,
      Option.bind_some, if_pos hb]

/-- A number may not begin with a zero. -/
example : decode? "[ 10,\t[] ]\n".toList = some (array [number 10, array []]) ∧ decode? "[01]".toList = none :=
  ⟨rfl, rfl⟩

end Constify.Json
