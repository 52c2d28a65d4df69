import Constify.Text.Basic

/-!
# Texts as bytes

* `Text.encode`, `Text.decode?` : the UTF-8 bytes of a text, and the text of bytes that are UTF-8;
* `Text.decode?_encode`, `Text.encode_of_decode?` : each undoes the other.
-/

namespace Constify.Text

def encode (t : Text) : ByteArray := (String.ofList t).toUTF8

/-- The text whose UTF-8 bytes are given, if there is one. -/
def decode? (b : ByteArray) : Option Text := (String.fromUTF8? b).map String.toList

theorem fromUTF8?_toUTF8 (s : String) : String.fromUTF8? s.toUTF8 = some s := by
  have h : s.toUTF8.IsValidUTF8 := s.isValidUTF8
  rw [String.fromUTF8?, dif_pos h]
  rfl

@[simp] theorem decode?_encode (t : Text) : decode? (encode t) = some t := by
  rw [decode?, encode, fromUTF8?_toUTF8, Option.map_some, String.toList_ofList]

theorem encode_of_decode? {b : ByteArray} {t : Text} (h : decode? b = some t) : encode t = b := by
  unfold decode? String.fromUTF8? at h
  split at h
  · simp only [Option.map_some, Option.some.injEq] at h
    subst h
    simp [encode, String.fromUTF8]
  · simp at h

end Constify.Text
