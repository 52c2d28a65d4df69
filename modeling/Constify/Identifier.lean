import Constify.Text.Basic

/-!
# Identifiers

* `isIdentStart`, `isIdentChar` : the ASCII characters an identifier starts with and goes on with;
* `isIdentifier` : a whole text is an identifier;
* `identRun` : the longest run of identifier characters at the front of a text;
* `mentions name t` : `name` stands in `t` with no identifier character directly before or after it.
-/

namespace Constify

/-- An identifier starts with an ASCII letter, an underscore or a dollar sign. -/
def isIdentStart (c : Char) : Bool := c.isAlpha || c == '_' || c == '$'

/-- An identifier goes on with ASCII letters and digits, underscores and dollar signs. -/
def isIdentChar (c : Char) : Bool := c.isAlphanum || c == '_' || c == '$'

def isIdentifier : Text → Bool
  | [] => false
  | c :: cs => isIdentStart c && cs.all isIdentChar

theorem isIdentChar_of_isIdentStart {c : Char} (h : isIdentStart c = true) :
    isIdentChar c = true := by
  simp only [isIdentStart, isIdentChar, Char.isAlphanum, Bool.or_eq_true] at *
  exact h.imp_left fun h => h.imp_left Or.inl

theorem exists_cons_of_isIdentifier {t : Text} (h : isIdentifier t = true) :
    ∃ c cs, t = c :: cs ∧ isIdentStart c = true ∧ ∀ d ∈ cs, isIdentChar d = true := by
  cases t with
  | nil => cases h
  | cons c cs =>
    simp only [isIdentifier, Bool.and_eq_true, List.all_eq_true] at h
    exact ⟨c, cs, rfl, h.1, h.2⟩

theorem isIdentChar_of_mem {t : Text} (h : isIdentifier t = true) {c : Char} (hc : c ∈ t) :
    isIdentChar c = true := by
  obtain ⟨d, ds, rfl, hstart, hchars⟩ := exists_cons_of_isIdentifier h
  rcases List.mem_cons.mp hc with rfl | hc
  · exact isIdentChar_of_isIdentStart hstart
  · exact hchars c hc

/-! ## Whole tokens -/

/-- The longest run of identifier characters at the front of a text. -/
def identRun (t : Text) : Text := t.takeWhile isIdentChar

def startsFree (t : Text) : Bool := t.head?.all fun c => !isIdentChar c

/-- `name` stands in the text as a whole token, where `free` tells that the character before the
text, if there is one, is no identifier character. -/
def mentionsFrom (name : Text) (free : Bool) : Text → Bool
  | [] => free && name.isEmpty
  | c :: cs =>
    (free && ((Text.after? name (c :: cs)).any startsFree)) ||
      mentionsFrom name (!isIdentChar c) cs

/-- `name` stands in the text with no identifier character directly before or after it. -/
def mentions (name t : Text) : Bool := mentionsFrom name true t

end Constify
