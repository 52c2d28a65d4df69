import Mathlib.Tactic
import Constify.Identifier
import Constify.Text.Blank
import Constify.Text.Word

/-!
# Blanks around a text, and quotes

* `blankChars`, `mem_blankChars` : the blank characters, one by one;
* `isIdentChar_of_isBlank`, `isWord_of_isBlank` : they belong to no identifier and to no word;
* `isBlank_of_isQuote`, `isQuote_of_isIdentChar` : neither do quotes, which are no blanks;
* `Blanks t` : the text is made of blanks;
* `Trimmed t` : the text has no blank at its ends (`trimmed_of_isIdentifier`, `trimmed_append`);
* `Text.trim_append` : trimming takes away the blanks around a trimmed text, and no more.
-/

namespace Constify

/-- The blank characters in increasing order. -/
def blankChars : List Char :=
  ['\t', '\n', '\x0b', '\x0c', '\r', ' ', '\u0085', '\u00a0', '\u1680', '\u2000', '\u2001', '\u2002',
    '\u2003', '\u2004', '\u2005', '\u2006', '\u2007', '\u2008', '\u2009', '\u200a', '\u2028', '\u2029',
    '\u202f', '\u205f', '\u3000']

theorem mem_blankChars {c : Char} (h : isBlank c = true) : c ∈ blankChars := by
  have hrange : ∀ low n, low ≤ c.toNat ∧ c.toNat ≤ low + n →
      (∀ k ≤ n, Char.ofNat (low + k) ∈ blankChars) → c ∈ blankChars := by
    rintro low n ⟨hlow, hhigh⟩ hall
    have := hall (c.toNat - low) (by omega)
    rwa [Nat.add_sub_cancel' hlow, Char.ofNat_toNat] at this
  simp only [isBlank, Bool.or_eq_true, Bool.and_eq_true, decide_eq_true_eq, beq_iff_eq, Char.le_def,
    UInt32.le_iff_toNat_le] at h
  rcases h with (((((((((h | rfl) | rfl) | rfl) | rfl) | h) | rfl) | rfl) | rfl) | rfl) | rfl
  · exact hrange 9 4 h (by decide)
  any_goals decide
  · exact hrange 0x2000 10 h (by decide)

theorem isIdentChar_of_isBlank {c : Char} (h : isBlank c = true) : isIdentChar c = false :=
  (by decide : ∀ c ∈ blankChars, isIdentChar c = false) c (mem_blankChars h)

theorem isWord_of_isBlank {c : Char} (h : isBlank c = true) : isWord c = false :=
  (by decide +kernel : ∀ c ∈ blankChars, isWord c = false) c (mem_blankChars h)

theorem isBlank_of_isIdentChar {c : Char} (h : isIdentChar c = true) : isBlank c = false := by
  cases hb : isBlank c with
  | false => rfl
  | true => rw [isIdentChar_of_isBlank hb] at h; cases h

theorem isIdentStart_of_isBlank {c : Char} (h : isBlank c = true) : isIdentStart c = false := by
  cases hs : isIdentStart c with
  | false => rfl
  | true => exact absurd (isIdentChar_of_isIdentStart hs) (by simp [isIdentChar_of_isBlank h])

theorem isBlank_of_isQuote {c : Char} (h : isQuote c = true) : isBlank c = false := by
  simp only [isQuote, Bool.or_eq_true, beq_iff_eq] at h
  rcases h with rfl | rfl <;> decide

theorem isQuote_of_isBlank {c : Char} (h : isBlank c = true) : isQuote c = false := by
  cases hquote : isQuote c with
  | false => rfl
  | true => rw [isBlank_of_isQuote hquote] at h; cases h

theorem isQuote_of_isIdentChar {c : Char} (h : isIdentChar c = true) : isQuote c = false := by
  cases hquote : isQuote c with
  | false => rfl
  | true =>
    simp only [isQuote, Bool.or_eq_true, beq_iff_eq] at hquote
    rcases hquote with rfl | rfl <;> cases h

/-! ## Texts of blanks and texts without blanks at their ends -/

/-- The text is made of blanks. -/
def Blanks (t : Text) : Prop := ∀ c ∈ t, isBlank c = true

instance : DecidablePred Blanks := fun t => inferInstanceAs (Decidable (∀ c ∈ t, isBlank c = true))

theorem blanks_nil : Blanks [] := by simp [Blanks]

theorem blanks_space : Blanks [' '] := by decide

theorem blanks_cons {c : Char} {t : Text} : Blanks (c :: t) ↔ isBlank c = true ∧ Blanks t :=
  List.forall_mem_cons

theorem Blanks.not_mem {t : Text} (h : Blanks t) {c : Char} (hc : isBlank c = false) : c ∉ t := by
  intro hmem
  rw [h c hmem] at hc
  cases hc

/-- The text has no blank at its ends. -/
structure Trimmed (t : Text) : Prop where
  head : ∀ c ∈ t.head?, isBlank c = false
  last : ∀ c ∈ t.getLast?, isBlank c = false

theorem trimmed_of_isIdentifier {t : Text} (h : isIdentifier t = true) : Trimmed t where
  head _ hc := isBlank_of_isIdentChar (isIdentChar_of_mem h (List.mem_of_mem_head? hc))
  last _ hc := isBlank_of_isIdentChar (isIdentChar_of_mem h (List.mem_of_mem_getLast? hc))

theorem trimmed_append {a b : Text} (ha : ∀ c ∈ a.head?, isBlank c = false) (hane : a ≠ [])
    (hb : ∀ c ∈ b.getLast?, isBlank c = false) (hbne : b ≠ []) : Trimmed (a ++ b) where
  head := by rwa [List.head?_append_of_ne_nil a hane]
  last := by rwa [List.getLast?_append_of_ne_nil a hbne]

namespace Text

variable {a b t : Text}

theorem trimStart_append (ha : Blanks a) (t : Text) : trimStart (a ++ t) = trimStart t :=
  List.dropWhile_append_of_pos ha

theorem trimStart_of_head (h : ∀ c ∈ t.head?, isBlank c = false) : trimStart t = t := by
  cases t with
  | nil => rfl
  | cons c cs => exact List.dropWhile_cons_of_neg (by simpa using h c rfl)

theorem trimStart_append_cons (ha : Blanks a) {c : Char} (hc : isBlank c = false) (t : Text) :
    trimStart (a ++ c :: t) = c :: t := by
  rw [trimStart_append ha, trimStart_of_head (by simpa using hc)]

theorem trimEnd_append (hb : Blanks b) (t : Text) : trimEnd (t ++ b) = trimEnd t := by
  rw [trimEnd, List.reverse_append, List.dropWhile_append_of_pos fun c hc => hb c (List.mem_reverse.mp hc),
    trimEnd]

theorem trimEnd_of_last (h : ∀ c ∈ t.getLast?, isBlank c = false) : trimEnd t = t := by
  have hhead : ∀ c ∈ t.reverse.head?, isBlank c = false := by rwa [List.head?_reverse]
  have := trimStart_of_head hhead
  rw [trimStart] at this
  rw [trimEnd, this, List.reverse_reverse]

/-- Trimming takes away the blanks around a trimmed text, and no more. -/
theorem trim_append (ha : Blanks a) (hb : Blanks b) (ht : Trimmed t) : trim (a ++ t ++ b) = t := by
  rw [trim, List.append_assoc, trimStart_append ha]
  cases t with
  | nil =>
    have hnil := trimStart_append hb []
    rw [List.append_nil] at hnil
    rw [List.nil_append, hnil]
    rfl
  | cons c cs =>
    rw [trimStart_of_head (by simpa using ht.head), trimEnd_append hb, trimEnd_of_last ht.last]

theorem trim_of_trimmed (ht : Trimmed t) : trim t = t := by
  simpa using trim_append blanks_nil blanks_nil ht

end Text

end Constify
