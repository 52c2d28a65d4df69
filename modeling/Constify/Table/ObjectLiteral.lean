import Constify.Table.Basic
import Constify.Text.Blank
import Constify.Text.Word

/-!
# Reading a table from a module's text

A module defines its constant object as `const NAME: Type = { key: "value", ... }`.

* `ObjectLiteral.opening? name t` : the text after the opening brace of the first such object;
* `ObjectLiteral.untilClose?` : the text before the brace that closes it;
* `ObjectLiteral.pairs` : the pairs `key: "value"` of a body, from left to right;
* `Table.ofModule?` : the table of an object, if there is an object with pairs.
-/

namespace Constify

namespace ObjectLiteral

/-! ## The header -/

/-- Read one or more blanks and go on with `f`: after all of them if that succeeds, else after
fewer. -/
def afterBlanks? {α : Type} (f : Text → Option α) : Text → Option α
  | [] => none
  | c :: cs => if isBlank c then (afterBlanks? f cs).or (f cs) else none

/-- What follows the opening brace, in a text that stands directly after the object's name: an
optional type annotation without `=`, then `=` and `{`. -/
def afterName? (t : Text) : Option Text :=
  let t := t.trimStart
  let t := match t with
    | ':' :: cs => cs.dropWhile fun c => c != '='
    | _ => t
  match t with
  | '=' :: cs =>
    match Text.trimStart cs with
    | '{' :: body => some body
    | _ => none
  | _ => none

/-- What follows the opening brace, in a text that starts with `const`, blanks and `name`. -/
def atHeader? (name t : Text) : Option Text :=
  (Text.after? "const".toList t).bind (afterBlanks? fun t => (Text.after? name t).bind afterName?)

/-- What follows the opening brace of the first header of `name`, in a text that follows the
character `before`. -/
def openingFrom? (name : Text) (before : Option Char) : Text → Option Text
  | [] => none
  | c :: cs =>
    (if atBoundary before then atHeader? name (c :: cs) else none).or
      (openingFrom? name (some c) cs)

def opening? (name t : Text) : Option Text := openingFrom? name none t

/-! ## The body -/

/-- The text before the brace that closes the object, where `inner` braces are open inside it. -/
def untilClose? (inner : Nat) : Text → Option Text
  | [] => none
  | '{' :: cs => (untilClose? (inner + 1) cs).map ('{' :: ·)
  | '}' :: cs =>
    match inner with
    | 0 => some []
    | n + 1 => (untilClose? n cs).map ('}' :: ·)
  | c :: cs => (untilClose? inner cs).map (c :: ·)

def body? (name t : Text) : Option Text := (opening? name t).bind (untilClose? 0)

/-! ## The pairs -/

/-- The characters of a value: no quote of either kind, no backslash, no line break. -/
def isValueChar (c : Char) : Bool := !isQuote c && c != '\\' && c != '\r' && c != '\n'

/-- The value at the front of a text, and what follows its closing quote. -/
def valueAt? : Text → Option (Text × Text)
  | [] => none
  | q :: cs =>
    if isQuote q then
      match cs.dropWhile isValueChar with
      | q' :: rest => if isQuote q' then some (cs.takeWhile isValueChar, rest) else none
      | [] => none
    else none

/-- The pair at the front of a text, and what follows its value. -/
def pairAt? : Text → Option (Entry × Text)
  | [] => none
  | c :: cs =>
    if isIdentStart c then
      match Text.trimStart (cs.dropWhile isIdentChar) with
      | ':' :: r => (valueAt? (Text.trimStart r)).map fun v => (⟨c :: identRun cs, v.1⟩, v.2)
      | _ => none
    else none

theorem length_of_valueAt? {t v r : Text} (h : valueAt? t = some (v, r)) : r.length < t.length := by
  cases t with
  | nil => simp [valueAt?] at h
  | cons q cs =>
    simp only [valueAt?] at h
    split at h
    · split at h
      · next q' rest hd =>
        split at h
        · simp only [Option.some.injEq, Prod.mk.injEq] at h
          obtain ⟨_, rfl⟩ := h
          have := (List.dropWhile_suffix (l := cs) isValueChar).length_le
          rw [hd] at this
          simp only [List.length_cons] at this ⊢
          omega
        · simp at h
      · simp at h
    · simp at h

theorem length_of_pairAt? {t r : Text} {e : Entry} (h : pairAt? t = some (e, r)) :
    r.length < t.length := by
  cases t with
  | nil => simp [pairAt?] at h
  | cons c cs =>
    simp only [pairAt?] at h
    split at h
    · split at h
      · next r' hr =>
        cases hv : valueAt? (Text.trimStart r') with
        | none => simp [hv] at h
        | some v =>
          simp only [hv, Option.map_some, Option.some.injEq, Prod.mk.injEq] at h
          have h1 := length_of_valueAt? (v := v.1) (r := v.2) hv
          have h2 := Text.length_trimStart_le r'
          have h3 := Text.length_trimStart_le (cs.dropWhile isIdentChar)
          have h4 := (List.dropWhile_suffix (l := cs) isIdentChar).length_le
          rw [hr] at h3
          rw [← h.2]
          simp only [List.length_cons] at h3 ⊢
          omega
      · simp at h
    · simp at h

/-- The pairs of a body from left to right. Text that is no pair is skipped. -/
def pairs : Text → List Entry
  | [] => []
  | c :: cs =>
    match hp : pairAt? (c :: cs) with
    | some (e, r) =>
      have := length_of_pairAt? hp
      e :: pairs r
    | none => pairs cs
termination_by t => t.length
decreasing_by
  · exact this
  · exact Nat.lt_succ_self _

end ObjectLiteral

/-- The table that the module's text defines as `name`; nothing if the text has no such object or
the object has no pairs. -/
def Table.ofModule? (name source : Text) : Except TableFault (Option Table) :=
  match ((ObjectLiteral.body? name source).map ObjectLiteral.pairs).getD [] with
  | [] => .ok none
  | entries => (Table.ofEntries name entries).map some

end Constify
