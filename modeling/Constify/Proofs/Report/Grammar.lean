import Mathlib.Tactic
import Constify.Report.Json

/-!
# The texts that denote a JSON value

The rules of JSON, for values without null and with natural numbers only. Between tokens there may be gaps,
and a character of a string may be written in several ways.

* `Json.CharForm`, `Json.StringForm`, `Json.NumberForm` : how strings and numbers are written;
* `Json.Separated`, `Json.Bracketed` : texts between brackets, with commas between them;
* `Json.Denotes j t` : the text `t` denotes the value `j`;
* `Json.induction` : induction over values;
* `Json.denotes_pretty` : the indented text of a value denotes it.
-/

namespace Constify.Json

/-! ## Gaps -/

/-- The characters that may stand between tokens. -/
def isGap (c : Char) : Bool := c == ' ' || c == '\t' || c == '\n' || c == '\r'

/-- The text is made of characters that may stand between tokens. -/
def Gap (t : Text) : Prop := ∀ c ∈ t, isGap c = true

instance : DecidablePred Gap := fun t => inferInstanceAs (Decidable (∀ c ∈ t, isGap c = true))

/-- The text has the form `p` and gaps around it. -/
def Padded (p : Text → Prop) (t : Text) : Prop := ∃ a u b, Gap a ∧ p u ∧ Gap b ∧ t = a ++ (u ++ b)

theorem gap_indent (depth : Nat) : Gap (indent depth) := by
  intro c hc
  rcases List.mem_cons.mp hc with rfl | hc
  · rfl
  · rw [List.eq_of_mem_replicate hc]
    rfl

/-! ## Strings -/

/-- The value of a hexadecimal digit. -/
def hexValue? (c : Char) : Option Nat :=
  if '0' ≤ c ∧ c ≤ '9' then some (c.toNat - '0'.toNat)
  else if 'a' ≤ c ∧ c ≤ 'f' then some (c.toNat - 'a'.toNat + 10)
  else if 'A' ≤ c ∧ c ≤ 'F' then some (c.toNat - 'A'.toNat + 10)
  else none

/-- The code unit that four hexadecimal digits stand for. -/
def hexUnit? : Text → Option Nat
  | [a, b, c, d] => do
    return (((← hexValue? a) * 16 + (← hexValue? b)) * 16 + (← hexValue? c)) * 16 + (← hexValue? d)
  | _ => none

/-- The letters of short escapes, and the characters that they stand for. -/
def shortEscapes : List (Char × Char) :=
  [('"', '"'), ('\\', '\\'), ('/', '/'), ('b', '\x08'), ('f', '\x0c'), ('n', '\n'), ('r', '\r'), ('t', '\t')]

/-- The first and the second half of a character that takes two code units. -/
def isHigh (n : Nat) : Bool := 0xd800 ≤ n && n < 0xdc00

def isLow (n : Nat) : Bool := 0xdc00 ≤ n && n < 0xe000

def combine (high low : Nat) : Nat := 0x10000 + (high - 0xd800) * 0x400 + (low - 0xdc00)

/-- How a character may be written in a string: as it is, unless it is a quote, a backslash or a control
character; as a short escape; or as one or two code units. -/
inductive CharForm : Char → Text → Prop
  | plain {c : Char} : ' ' ≤ c → c ≠ '"' → c ≠ '\\' → CharForm c [c]
  | short {letter c : Char} : (letter, c) ∈ shortEscapes → CharForm c ['\\', letter]
  | unit {c : Char} {h : Text} : hexUnit? h = some c.toNat → CharForm c ('\\' :: 'u' :: h)
  | pair {c : Char} {h h' : Text} {high low : Nat} : hexUnit? h = some high → hexUnit? h' = some low →
      isHigh high = true → isLow low = true → c.toNat = combine high low →
      CharForm c ('\\' :: 'u' :: (h ++ '\\' :: 'u' :: h'))

/-- The text is what a string of these characters holds between its quotes. -/
inductive BodyForm : Text → Text → Prop
  | nil : BodyForm [] []
  | cons {c : Char} {s u t : Text} : CharForm c u → BodyForm s t → BodyForm (c :: s) (u ++ t)

def StringForm (s t : Text) : Prop := ∃ body, BodyForm s body ∧ t = '"' :: (body ++ ['"'])

theorem charForm_escape (c : Char) : CharForm c (escape c) := by
  unfold escape
  split
  case h_8 hquote hslash hb hf hn hr ht =>
    split
    · next hlt =>
      -- a control character is written with its code
      have hcode : ∀ n < 32, hexUnit? ['0', '0', hexDigit (n / 16), hexDigit (n % 16)] = some n := by decide
      have hn : c.toNat < 32 := hlt
      exact .unit (hcode c.toNat hn)
    · next hge => exact .plain (Char.not_lt.mp hge) hquote hslash
  all_goals exact .short (by decide)

theorem stringForm_quote (s : Text) : StringForm s (quote s) := by
  refine ⟨s.flatMap escape, ?_, rfl⟩
  induction s with
  | nil => exact .nil
  | cons c s ih =>
    rw [List.flatMap_cons]
    exact .cons (charForm_escape c) ih

/-! ## Numbers -/

/-- The text is the number in decimal digits, without a zero in front of other digits. -/
def NumberForm (n : Nat) (t : Text) : Prop :=
  t ≠ [] ∧ (∀ c ∈ t, c.isDigit = true) ∧ (t.head? = some '0' → t = ['0']) ∧ Nat.ofDigitChars 10 t 0 = n

theorem eq_zero_of_head?_ofNat {n : Nat} (h : (Text.ofNat n).head? = some '0') : n = 0 := by
  induction n using Nat.strongRecOn with
  | ind n ih =>
    unfold Text.ofNat at h
    by_cases hn : n < 10
    · rw [Nat.toDigits_of_lt_base hn] at h
      have hdigit : ∀ k < 10, Nat.digitChar k = '0' → k = 0 := by decide
      exact hdigit n hn (by simpa using h)
    · rw [Nat.toDigits_of_base_le (by decide) (by omega),
        List.head?_append_of_ne_nil _ Nat.toDigits_ne_nil] at h
      have := ih (n / 10) (by omega) h
      omega

theorem numberForm_ofNat (n : Nat) : NumberForm n (Text.ofNat n) := by
  refine ⟨Nat.toDigits_ne_nil, fun c hc => Nat.isDigit_of_mem_toDigits (by decide) (by decide) hc, fun h => ?_,
    Nat.ofDigitChars_toDigits (by decide) (by decide)⟩
  rw [eq_zero_of_head?_ofNat h]
  rfl

/-! ## Arrays and objects -/

/-- Texts of these forms with gaps around them and commas between them. -/
def Separated : List (Text → Prop) → Text → Prop
  | [], t => Gap t
  | [p], t => Padded p t
  | p :: q :: ps, t => ∃ u r, Padded p u ∧ Separated (q :: ps) r ∧ t = u ++ ',' :: r

/-- Such texts between brackets. -/
def Bracketed (opening closing : Char) (ps : List (Text → Prop)) (t : Text) : Prop :=
  ∃ u, Separated ps u ∧ t = opening :: (u ++ [closing])

/-- A member of an object: its key, a colon and its value. -/
def MemberForm (key : Text) (p : Text → Prop) (t : Text) : Prop :=
  ∃ k a b u, StringForm key k ∧ Gap a ∧ Gap b ∧ p u ∧ t = k ++ (a ++ ':' :: (b ++ u))

theorem separated_indented {ps : List (Text → Prop)} {ts : List Text} (h : List.Forall₂ (fun p t => p t) ps ts)
    (hne : ts ≠ []) (depth depth' : Nat) :
    Separated ps ([','].intercalate (ts.map fun t => indent depth ++ t) ++ indent depth') := by
  induction h with
  | nil => exact absurd rfl hne
  | @cons p t ps ts hp hps ih =>
    cases hps with
    | nil => exact ⟨indent depth, t, indent depth', gap_indent _, hp, gap_indent _, by simp⟩
    | @cons q t' ps ts hq hps =>
      refine ⟨indent depth ++ t, _, ⟨indent depth, t, [], gap_indent _, hp, by simp [Gap], by simp⟩, ih (by simp), ?_⟩
      simp [List.intercalate_cons_cons]

theorem bracketed_forms {ps : List (Text → Prop)} {ts : List Text} (h : List.Forall₂ (fun p t => p t) ps ts)
    (opening closing : Char) (depth : Nat) : Bracketed opening closing ps (bracketed opening closing depth ts) := by
  unfold bracketed
  split
  · next hnil =>
    subst hnil
    cases h
    exact ⟨[], by simp [Separated, Gap], rfl⟩
  · next hne => exact ⟨_, separated_indented h hne (depth + 1) depth, by simp⟩

/-! ## Values -/

mutual

/-- The text denotes the value. -/
def Denotes : Json → Text → Prop
  | string s, t => StringForm s t
  | number n, t => NumberForm n t
  | boolean b, t => t = if b then "true".toList else "false".toList
  | array items, t => Bracketed '[' ']' (itemForms items) t
  | object members, t => Bracketed '\x7b' '\x7d' (memberForms members) t

def itemForms : List Json → List (Text → Prop)
  | [] => []
  | j :: js => Denotes j :: itemForms js

def memberForms : List (Text × Json) → List (Text → Prop)
  | [] => []
  | (key, j) :: ms => MemberForm key (Denotes j) :: memberForms ms

end

theorem itemForms_eq_map (items : List Json) : itemForms items = items.map Denotes := by
  induction items with
  | nil => rw [itemForms, List.map_nil]
  | cons j js ih => rw [itemForms, ih, List.map_cons]

theorem memberForms_eq_map (members : List (Text × Json)) :
    memberForms members = members.map fun m => MemberForm m.1 (Denotes m.2) := by
  induction members with
  | nil => rw [memberForms, List.map_nil]
  | cons m ms ih => rw [memberForms, ih, List.map_cons]

/-- Induction over values: an array may use its items, and an object the values of its members. -/
@[elab_as_elim]
theorem induction {p : Json → Prop} (string : ∀ s, p (.string s)) (number : ∀ n, p (.number n))
    (boolean : ∀ b, p (.boolean b)) (array : ∀ items, (∀ j ∈ items, p j) → p (.array items))
    (object : ∀ members, (∀ m ∈ members, p m.2) → p (.object members)) (j : Json) : p j :=
  @Json.rec p (fun items => ∀ j ∈ items, p j) (fun members => ∀ m ∈ members, p m.2) (fun m => p m.2)
    string number boolean array object (by simp) (fun j js hj hjs => List.forall_mem_cons.mpr ⟨hj, hjs⟩)
    (by simp) (fun m ms hm hms => List.forall_mem_cons.mpr ⟨hm, hms⟩) (fun _ _ h => h) j

theorem prettyItems_eq_map (depth : Nat) (items : List Json) :
    prettyItems depth items = items.map (pretty depth) := by
  induction items with
  | nil => rw [prettyItems, List.map_nil]
  | cons j js ih => rw [prettyItems, ih, List.map_cons]

theorem prettyMembers_eq_map (depth : Nat) (members : List (Text × Json)) :
    prettyMembers depth members = members.map fun m => quote m.1 ++ ": ".toList ++ pretty depth m.2 := by
  induction members with
  | nil => rw [prettyMembers, List.map_nil]
  | cons m ms ih => rw [prettyMembers, ih, List.map_cons]

/-- The indented text of a value denotes it, however deep it stands. -/
theorem denotes_pretty (j : Json) (depth : Nat) : j.Denotes (pretty depth j) := by
  induction j using Json.induction generalizing depth with
  | string s =>
    rw [Denotes, pretty]
    exact stringForm_quote s
  | number n =>
    rw [Denotes, pretty]
    exact numberForm_ofNat n
  | boolean b => rw [Denotes, pretty]
  | array items ih =>
    rw [Denotes, pretty, itemForms_eq_map, prettyItems_eq_map]
    refine bracketed_forms ?_ '[' ']' depth
    rw [List.forall₂_map_left_iff, List.forall₂_map_right_iff, List.forall₂_same]
    exact fun j hj => ih j hj (depth + 1)
  | object members ih =>
    rw [Denotes, pretty, memberForms_eq_map, prettyMembers_eq_map]
    refine bracketed_forms ?_ '{' '}' depth
    rw [List.forall₂_map_left_iff, List.forall₂_map_right_iff, List.forall₂_same]
    intro m hm
    refine ⟨quote m.1, [], [' '], _, stringForm_quote m.1, by simp [Gap], by decide, ih m hm (depth + 1), ?_⟩
    simp

end Constify.Json
