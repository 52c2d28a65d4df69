import Constify.Text.Utf8

/-!
# Names and paths as bytes

The file system takes any bytes for a name, also such as are no UTF-8.

* `Bytes` : a name or a path as the file system has it;
* `Bytes.text?` : the text whose UTF-8 bytes they are, if there is one;
* `Bytes.pieces` : bytes cut into those of single characters and those that belong to none;
* `Bytes.shown` : the text by which bytes are told, the same if they are UTF-8.

Where bytes are wanted a text stands for its own, and where a text is wanted bytes are shown.
-/

namespace Constify

/-- A name or a path as the file system has it. -/
abbrev Bytes := List UInt8

def Text.bytes (t : Text) : Bytes := t.flatMap String.utf8EncodeChar

namespace Bytes

/-- The text whose UTF-8 bytes are given, if there is one. -/
def text? (bs : Bytes) : Option Text := Text.decode? bs.toByteArray

/-! ## Characters in bytes -/

/-- What may follow the first byte of a character: how many bytes, and the bounds of the one that comes
next. Those after it are between `0x80` and `0xBF`. -/
structure Following where
  count : Nat
  low : Nat
  high : Nat

/-- What may follow a byte, if a character can start with it. Longer forms than a character needs,
surrogates and numbers above those of characters are left out. -/
def following? (b : UInt8) : Option Following :=
  let n := b.toNat
  if n < 0x80 then some ⟨0, 0x80, 0xBF⟩
  else if n < 0xC2 then none
  else if n < 0xE0 then some ⟨1, 0x80, 0xBF⟩
  else if n < 0xF0 then
    some ⟨2, if n = 0xE0 then 0xA0 else 0x80, if n = 0xED then 0x9F else 0xBF⟩
  else if n < 0xF5 then
    some ⟨3, if n = 0xF0 then 0x90 else 0x80, if n = 0xF4 then 0x8F else 0xBF⟩
  else none

/-- The number of bytes at the front that may follow, up to the first that may not. -/
def fitting : Nat → Nat → Nat → Bytes → Nat
  | count + 1, low, high, b :: bs =>
    if low ≤ b.toNat ∧ b.toNat ≤ high then fitting count 0x80 0xBF bs + 1 else 0
  | _, _, _, _ => 0

/-- The number of bytes in `bs` that belong to a character which starts with the byte `b` before them. -/
def belonging (b : UInt8) (bs : Bytes) : Nat :=
  match following? b with
  | some f => fitting f.count f.low f.high bs
  | none => 0

/-- The pieces of bytes after the first ones, `skip` in number. -/
def piecesFrom : Nat → Bytes → List Bytes
  | _, [] => []
  | skip + 1, _ :: bs => piecesFrom skip bs
  | 0, b :: bs => (b :: bs.take (belonging b bs)) :: piecesFrom (belonging b bs) bs

/-- Bytes cut into pieces, each as long as a character can go on from its first byte. -/
def pieces (bs : Bytes) : List Bytes := piecesFrom 0 bs

/-- The text of a piece, or the character that takes its place if it is none. -/
def shownPiece (piece : Bytes) : Text := piece.text?.getD ['\uFFFD']

/-- The text by which bytes are told. -/
def shown (bs : Bytes) : Text := bs.pieces.flatMap shownPiece

end Bytes

instance : Coe Text Bytes := ⟨Text.bytes⟩

instance : Coe Bytes Text := ⟨Bytes.shown⟩

instance : Coe (List Text) (List Bytes) := ⟨List.map Text.bytes⟩

instance : Coe (List Bytes) (List Text) := ⟨List.map Bytes.shown⟩

end Constify
