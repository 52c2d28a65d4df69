import Mathlib.Data.Char
import Mathlib.Data.List.Lex
import Mathlib.Data.UInt
import Mathlib.Tactic
import Constify.Text.Bytes

/-!
# The order of texts and the order of their bytes

* `utf8EncodeChar_append_lt` : the bytes of a smaller character come first, whatever follows;
* `bytes_lt_iff` : comparing texts character by character is comparing their bytes.
-/

namespace Constify.Text

theorem bytes_nil : bytes [] = [] := rfl

theorem bytes_cons (c : Char) (t : Text) : bytes (c :: t) = String.utf8EncodeChar c ++ bytes t :=
  List.flatMap_cons

theorem toNat_val_lt (c : Char) : c.val.toNat < 0x110000 := by
  rcases c.valid with h | h
  · exact lt_trans h (by decide)
  · exact h.2

theorem utf8EncodeChar_append_lt {c d : Char} (h : c < d) (x y : List UInt8) :
    String.utf8EncodeChar c ++ x < String.utf8EncodeChar d ++ y := by
  have hlt : c.val.toNat < d.val.toNat := h
  have hd := toNat_val_lt d
  unfold String.utf8EncodeChar
  generalize c.val.toNat = v at *
  generalize d.val.toNat = w at *
  dsimp only
  -- the bytes are digits to the base 64, each read off the quotient before it
  have hdiv : ∀ n : Nat, n / 4096 = n / 64 / 64 ∧ n / 262144 = n / 64 / 64 / 64 := by
    intro n
    omega
  simp only [hdiv]
  -- one case for each pair of lengths
  split_ifs <;>
    simp only [List.cons_append, List.nil_append, List.cons_lt_cons_iff, UInt8.lt_iff_toNat_lt,
      ← UInt8.toNat_inj, UInt8.toNat_ofNat'] <;>
    omega

theorem append_lt_append {p x y : List UInt8} (h : x < y) : p ++ x < p ++ y := by
  induction p with
  | nil => exact h
  | cons a p ih =>
    rw [List.cons_append, List.cons_append, List.cons_lt_cons_iff]
    exact Or.inr ⟨rfl, ih⟩

theorem bytes_lt_bytes {a b : Text} (h : a < b) : a.bytes < b.bytes := by
  induction a generalizing b with
  | nil =>
    cases b with
    | nil => exact absurd h (lt_irrefl _)
    | cons d b =>
      have hne : String.utf8EncodeChar d ≠ [] := by
        rw [← List.length_pos_iff, String.length_utf8EncodeChar]
        exact d.utf8Size_pos
      obtain ⟨x, xs, hx⟩ := List.exists_cons_of_ne_nil hne
      rw [bytes_nil, bytes_cons, hx, List.cons_append]
      exact List.nil_lt_cons ..
  | cons c a ih =>
    cases b with
    | nil => exact absurd h (List.not_lt_nil _)
    | cons d b =>
      rw [bytes_cons, bytes_cons]
      rcases List.cons_lt_cons_iff.mp h with hcd | ⟨rfl, hab⟩
      · exact utf8EncodeChar_append_lt hcd _ _
      · exact append_lt_append (ih hab)

/-- **Comparing texts character by character is comparing their UTF-8 bytes.** -/
theorem bytes_lt_iff {a b : Text} : a.bytes < b.bytes ↔ a < b := by
  refine ⟨fun h => ?_, bytes_lt_bytes⟩
  rcases lt_trichotomy a b with hab | rfl | hab
  · exact hab
  · exact absurd h (List.lt_irrefl _)
  · exact absurd h (List.lt_asymm (bytes_lt_bytes hab))

theorem bytes_le_iff {a b : Text} : a.bytes ≤ b.bytes ↔ a ≤ b := by
  rw [← List.not_lt, bytes_lt_iff, not_lt]

end Constify.Text
