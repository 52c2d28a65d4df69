import Mathlib.Tactic
import Constify.Proofs.Path
import Constify.Proofs.Text.ByteOrder

/-!
# Bytes as they are shown

* `Bytes.text?_eq_some_iff` : the text of bytes;
* `Bytes.flatten_pieces`, `Bytes.pieces_append` : the pieces of bytes, and where no piece goes on;
* `Bytes.pieces_utf8EncodeChar` : the bytes of a character are one piece;
* `Bytes.shown_bytes` : what is UTF-8 is shown as it is;
* `Bytes.subset_of_mem_shown`, `Bytes.eq_bytes_of_shown_eq` : what is shown without a replacement character;
* `Path.shown_through`, `Path.bytes_shown_through` : a path is shown segment after segment;
* `Path.isEntry_shown`, `Path.hasExtension_shown` : names and extensions as they are shown.
-/

namespace Constify

theorem Text.bytes_append (a b : Text) : (a ++ b).bytes = a.bytes ++ b.bytes := List.flatMap_append

theorem Text.encode_eq_toByteArray (t : Text) : t.encode = t.bytes.toByteArray := by
  rw [encode, String.toUTF8_eq_toByteArray, String.toByteArray_ofList]
  rfl

namespace Bytes

variable {bs rest : Bytes} {b : UInt8}

theorem text?_eq_some_iff {t : Text} : bs.text? = some t ↔ bs = t.bytes := by
  unfold text?
  constructor
  · intro h
    have hbytes := Text.encode_of_decode? h
    rw [Text.encode_eq_toByteArray] at hbytes
    rw [← List.toList_data_toByteArray (l := bs), ← hbytes, List.toList_data_toByteArray]
  · rintro rfl
    rw [← Text.encode_eq_toByteArray, Text.decode?_encode]

/-! ## Pieces -/

theorem fitting_cons_of_le {count low high : Nat} (hlow : low ≤ b.toNat) (hhigh : b.toNat ≤ high)
    (bs : Bytes) : fitting (count + 1) low high (b :: bs) = fitting count 0x80 0xBF bs + 1 :=
  if_pos ⟨hlow, hhigh⟩

theorem fitting_zero (low high : Nat) (bs : Bytes) : fitting 0 low high bs = 0 := by
  rw [fitting]
  simp

theorem fitting_le_length (count low high : Nat) (bs : Bytes) : fitting count low high bs ≤ bs.length := by
  induction count generalizing low high bs with
  | zero => rw [fitting_zero]; exact Nat.zero_le _
  | succ count ih =>
    cases bs with
    | nil => exact Nat.zero_le _
    | cons b bs =>
      rw [fitting]
      split
      · exact Nat.succ_le_succ (ih _ _ _)
      · exact Nat.zero_le _

theorem belonging_le_length (b : UInt8) (bs : Bytes) : belonging b bs ≤ bs.length := by
  unfold belonging
  split
  · exact fitting_le_length _ _ _ _
  · exact Nat.zero_le _

theorem flatten_piecesFrom (skip : Nat) (bs : Bytes) : (piecesFrom skip bs).flatten = bs.drop skip := by
  induction bs generalizing skip with
  | nil => rw [piecesFrom, List.drop_nil, List.flatten_nil]
  | cons b bs ih =>
    cases skip with
    | zero => rw [piecesFrom, List.flatten_cons, ih, List.cons_append, List.take_append_drop, List.drop_zero]
    | succ skip => rw [piecesFrom, ih, List.drop_succ_cons]

theorem flatten_pieces (bs : Bytes) : bs.pieces.flatten = bs := flatten_piecesFrom 0 bs

theorem piecesFrom_append (bs rest : Bytes) : piecesFrom bs.length (bs ++ rest) = rest.pieces := by
  induction bs with
  | nil => rfl
  | cons b bs ih => rw [List.length_cons, List.cons_append, piecesFrom, ih]

/-- Bytes that cannot go on a character stand at the front, or there are none. -/
def StartsPiece (bs : Bytes) : Prop := ∀ b ∈ bs.head?, b.toNat < 0x80

theorem fitting_append (hrest : StartsPiece rest) {count low high : Nat} (hlow : 0x80 ≤ low) (bs : Bytes) :
    fitting count low high (bs ++ rest) = fitting count low high bs := by
  induction count generalizing low high bs with
  | zero => rw [fitting_zero, fitting_zero]
  | succ count ih =>
    cases bs with
    | cons b bs => rw [List.cons_append, fitting, fitting, ih (Nat.le_refl _)]
    | nil =>
      cases rest with
      | nil => rfl
      | cons b rest =>
        have hb : b.toNat < 0x80 := hrest b rfl
        exact if_neg (by omega)

theorem low_of_following? {f : Following} (h : following? b = some f) : 0x80 ≤ f.low := by
  unfold following? at h
  dsimp only at h
  split_ifs at h <;> obtain rfl := Option.some.inj h <;> decide

theorem belonging_append (hrest : StartsPiece rest) (b : UInt8) (bs : Bytes) :
    belonging b (bs ++ rest) = belonging b bs := by
  unfold belonging
  cases h : following? b with
  | none => rfl
  | some f => exact fitting_append hrest (low_of_following? h) bs

theorem piecesFrom_append_of_startsPiece (hrest : StartsPiece rest) {skip : Nat} (hskip : skip ≤ bs.length) :
    piecesFrom skip (bs ++ rest) = piecesFrom skip bs ++ rest.pieces := by
  induction bs generalizing skip with
  | nil =>
    obtain rfl := Nat.le_zero.mp hskip
    rfl
  | cons b bs ih =>
    cases skip with
    | zero =>
      rw [List.cons_append, piecesFrom, piecesFrom, belonging_append hrest, ih (belonging_le_length b bs),
        List.take_append_of_le_length (belonging_le_length b bs), List.cons_append]
    | succ skip => exact ih (Nat.le_of_succ_le_succ hskip)

/-- No piece goes on into bytes that start one. -/
theorem pieces_append (hrest : StartsPiece rest) (bs : Bytes) :
    (bs ++ rest).pieces = bs.pieces ++ rest.pieces :=
  piecesFrom_append_of_startsPiece hrest (Nat.zero_le _)

/-- The bytes of a character are one that can start it and those that belong to this one. -/
theorem exists_utf8EncodeChar_eq (c : Char) :
    ∃ b tail, String.utf8EncodeChar c = b :: tail ∧ ∀ rest, belonging b (tail ++ rest) = tail.length := by
  have hvalid := c.valid
  unfold String.utf8EncodeChar
  dsimp only [UInt32.isValidChar, Nat.isValidChar] at *
  generalize c.val.toNat = v at *
  have hcont : ∀ n : Nat, 0x80 ≤ (UInt8.ofNat (n % 64 + 128)).toNat ∧
      (UInt8.ofNat (n % 64 + 128)).toNat ≤ 0xBF := by
    intro n
    rw [UInt8.toNat_ofNat']
    omega
  split_ifs with h1 h2 h3
  all_goals
    refine ⟨_, _, rfl, fun rest => ?_⟩
    simp only [belonging, following?, UInt8.toNat_ofNat', List.cons_append, List.nil_append,
      List.length_cons, List.length_nil]
  · rw [if_pos (by omega)]
    exact fitting_zero _ _ _
  · rw [if_neg (by omega), if_neg (by omega), if_pos (by omega)]
    dsimp only
    rw [fitting_cons_of_le (hcont _).1 (hcont _).2, fitting_zero]
  · rw [if_neg (by omega), if_neg (by omega), if_neg (by omega), if_pos (by omega)]
    dsimp only
    rw [fitting_cons_of_le, fitting_cons_of_le (hcont _).1 (hcont _).2, fitting_zero]
    -- the bounds of the second byte leave out long forms and surrogates
    all_goals rw [UInt8.toNat_ofNat']; split <;> omega
  · rw [if_neg (by omega), if_neg (by omega), if_neg (by omega), if_neg (by omega), if_pos (by omega)]
    dsimp only
    rw [fitting_cons_of_le, fitting_cons_of_le (hcont _).1 (hcont _).2,
      fitting_cons_of_le (hcont _).1 (hcont _).2, fitting_zero]
    all_goals rw [UInt8.toNat_ofNat']; split <;> omega

theorem pieces_utf8EncodeChar (c : Char) (rest : Bytes) :
    pieces (String.utf8EncodeChar c ++ rest) = String.utf8EncodeChar c :: rest.pieces := by
  obtain ⟨b, tail, hc, hbelonging⟩ := exists_utf8EncodeChar_eq c
  rw [hc, List.cons_append, pieces, piecesFrom, hbelonging, List.take_left, piecesFrom_append]

/-! ## Showing -/

theorem shown_utf8EncodeChar (c : Char) (rest : Bytes) :
    shown (String.utf8EncodeChar c ++ rest) = c :: shown rest := by
  have hpiece : shownPiece (String.utf8EncodeChar c) = [c] := by
    rw [shownPiece, text?_eq_some_iff.mpr (List.flatMap_singleton ..).symm, Option.getD_some]
  rw [shown, pieces_utf8EncodeChar, List.flatMap_cons, hpiece]
  rfl

theorem shown_nil : shown [] = [] := rfl

theorem shown_bytes_append (t : Text) (rest : Bytes) : shown (t.bytes ++ rest) = t ++ shown rest := by
  induction t with
  | nil => rfl
  | cons c t ih => rw [Text.bytes_cons, List.append_assoc, shown_utf8EncodeChar, ih, List.cons_append]

/-- What is UTF-8 is shown as it is. -/
@[simp] theorem shown_bytes (t : Text) : shown t.bytes = t := by
  have h := shown_bytes_append t []
  rwa [List.append_nil, shown_nil, List.append_nil] at h

theorem startsPiece_utf8EncodeChar {c : Char} (hc : c.val.toNat ≤ 127) (rest : Bytes) :
    StartsPiece (String.utf8EncodeChar c ++ rest) := by
  have hbytes : String.utf8EncodeChar c = [UInt8.ofNat c.val.toNat] := if_pos hc
  rw [hbytes]
  rintro b ⟨⟩
  rw [UInt8.toNat_ofNat']
  omega

/-- What stands before and after a character of one byte is shown on its own. -/
theorem shown_append_utf8EncodeChar {c : Char} (hc : c.val.toNat ≤ 127) (bs rest : Bytes) :
    shown (bs ++ (String.utf8EncodeChar c ++ rest)) = bs.shown ++ c :: rest.shown := by
  rw [shown, pieces_append (startsPiece_utf8EncodeChar hc rest), List.flatMap_append]
  exact congrArg _ (shown_utf8EncodeChar c rest)

theorem exists_piece_of_mem_shown {c : Char} (h : c ∈ bs.shown) (hc : c ≠ '\uFFFD') :
    ∃ t : Text, t.bytes ∈ bs.pieces ∧ c ∈ t := by
  obtain ⟨piece, hpiece, hmem⟩ := List.mem_flatMap.mp h
  unfold shownPiece at hmem
  cases ht : piece.text? with
  | none =>
    rw [ht, Option.getD_none, List.mem_singleton] at hmem
    exact absurd hmem hc
  | some t =>
    rw [ht, Option.getD_some] at hmem
    rw [text?_eq_some_iff] at ht
    exact ⟨t, ht ▸ hpiece, hmem⟩

/-- What is shown and not a replacement stands in the bytes. -/
theorem subset_of_mem_shown {c : Char} (h : c ∈ bs.shown) (hc : c ≠ '\uFFFD') :
    String.utf8EncodeChar c ⊆ bs := by
  obtain ⟨t, hpiece, hmem⟩ := exists_piece_of_mem_shown h hc
  intro b hb
  rw [← flatten_pieces bs]
  exact List.mem_flatten.mpr ⟨_, hpiece, List.mem_flatMap.mpr ⟨c, hmem, hb⟩⟩

theorem shownPiece_bytes {piece : Bytes} (h : '\uFFFD' ∉ shownPiece piece) :
    (shownPiece piece).bytes = piece := by
  unfold shownPiece at h ⊢
  cases ht : piece.text? with
  | none =>
    rw [ht] at h
    exact absurd (List.mem_singleton_self _) h
  | some t => exact (text?_eq_some_iff.mp ht).symm

/-- Bytes that are shown without a replacement are UTF-8. -/
theorem eq_bytes_of_shown_eq {t : Text} (h : bs.shown = t) (ht : '\uFFFD' ∉ t) : bs = t.bytes := by
  subst h
  have hpieces : ∀ piece ∈ bs.pieces, (shownPiece piece).flatMap String.utf8EncodeChar = piece :=
    fun piece hpiece => shownPiece_bytes fun hmem => ht (List.mem_flatMap.mpr ⟨piece, hpiece, hmem⟩)
  rw [Text.bytes, shown, List.flatMap_assoc, List.flatMap_congr hpieces, List.flatMap_id', flatten_pieces]

end Bytes

/-! ## Paths -/

namespace Path

open PathUnit (slash dot)

variable {names : List Bytes}

theorem shown_append_slash (a b : Bytes) : Bytes.shown (a ++ slash :: b) = a.shown ++ slash :: b.shown :=
  Bytes.shown_append_utf8EncodeChar (by decide : '/'.val.toNat ≤ 127) a b

theorem shown_append_dot (a b : Bytes) : Bytes.shown (a ++ dot :: b) = a.shown ++ dot :: b.shown :=
  Bytes.shown_append_utf8EncodeChar (by decide : '.'.val.toNat ≤ 127) a b

/-- A path is shown segment after segment. -/
theorem shown_through (names : List Bytes) :
    Bytes.shown (through names) = ofNames (names.map Bytes.shown) := by
  induction names with
  | nil => rfl
  | cons name names ih =>
    cases names with
    | nil => simp [through, ofNames]
    | cons other names =>
      rw [List.map_cons, List.map_cons, ofNames, through, through, List.intercalate_cons_cons,
        List.intercalate_cons_cons, List.append_assoc, List.append_assoc, List.singleton_append,
        shown_append_slash]
      exact congrArg (name.shown ++ slash :: ·) ih

theorem bytes_ofNames (names : List Text) : (ofNames names).bytes = through (names.map Text.bytes) := by
  induction names with
  | nil => rfl
  | cons name names ih =>
    cases names with
    | nil => simp [through, ofNames]
    | cons other names =>
      rw [List.map_cons, List.map_cons, ofNames, through, through, List.intercalate_cons_cons,
        List.intercalate_cons_cons, List.append_assoc, List.append_assoc, Text.bytes_append]
      exact congrArg (name.bytes ++ slash :: ·) ih

/-- A path through names that are UTF-8 can be read off what is shown of it. -/
theorem bytes_shown_through (h : ∀ name ∈ names, ∃ text : Text, name = text.bytes) :
    (Bytes.shown (through names)).bytes = through names := by
  rw [shown_through, bytes_ofNames, List.map_map]
  refine congrArg through ((List.map_congr_left fun name hname => ?_).trans (List.map_id names))
  obtain ⟨text, rfl⟩ := h name hname
  exact congrArg Text.bytes (Bytes.shown_bytes text)

theorem isEntry_shown {name : Bytes} (h : IsEntry name) : IsEntry name.shown where
  ne_nil hnil := h.ne_nil (Bytes.eq_bytes_of_shown_eq hnil (by decide))
  ne_dot hdot := h.ne_dot (Bytes.eq_bytes_of_shown_eq hdot (by decide))
  ne_dots hdots := h.ne_dots (Bytes.eq_bytes_of_shown_eq hdots (by decide))
  slash_not_mem hmem :=
    h.slash_not_mem (Bytes.subset_of_mem_shown hmem (by decide) (List.mem_singleton_self _))

theorem isEntry_bytes {name : Text} (h : IsEntry name) : IsEntry name.bytes where
  ne_nil hnil := h.ne_nil (by rw [← Bytes.shown_bytes name, hnil]; rfl)
  ne_dot hdot := h.ne_dot (by rw [← Bytes.shown_bytes name, hdot]; rfl)
  ne_dots hdots := h.ne_dots (by rw [← Bytes.shown_bytes name, hdots]; rfl)
  slash_not_mem hmem := by
    obtain ⟨a, b, hab⟩ := List.append_of_mem hmem
    refine h.slash_not_mem ?_
    rw [← Bytes.shown_bytes name, hab, shown_append_slash]
    exact List.mem_append_right _ (List.mem_cons_self ..)

/-- An extension that is UTF-8 is the extension of the name as it is shown too. -/
theorem hasExtension_shown {name : Bytes} {ext : Text} (h : HasExtension name ext.bytes) :
    HasExtension name.shown.bytes ext.bytes := by
  obtain ⟨stem, hstem, rfl, hdot⟩ := h
  refine ⟨(Bytes.shown stem).bytes, fun hnil => hstem ?_, ?_, hdot⟩
  · refine Bytes.eq_bytes_of_shown_eq (t := []) ?_ (by decide)
    rw [← Bytes.shown_bytes (Bytes.shown stem), hnil]
    rfl
  · rw [shown_append_dot, Bytes.shown_bytes, Text.bytes_append]
    rfl

end Path

end Constify
