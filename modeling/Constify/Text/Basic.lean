/-!
# Texts as lists of characters

* `Text` : a text is the list of its characters, so every scan is a recursion on it;
* `Text.decidableForallMem` : what holds of all its characters is decided along it;
* `Text.splitOn c t` : the pieces of `t` between the separators `c`, never an empty list;
* `Text.after? p t` : what follows `p` at the front of `t`;
* `Text.occursIn p t` : `p` stands somewhere in `t` (`occursIn_iff`);
* `Text.ofNat n` : the decimal digits of `n`.
-/

namespace Constify

/-- A text is the list of its characters. -/
abbrev Text := List Char

/-- What holds of all characters of a text is decided along the text, not over all characters that there are. -/
instance (priority := 2000) Text.decidableForallMem {t : List Char} {p : Char → Prop} [DecidablePred p] :
    Decidable (∀ c ∈ t, p c) :=
  List.decidableBAll p t

instance (priority := 2000) Text.decidableForallMemOption {o : Option Char} {p : Char → Prop}
    [DecidablePred p] : Decidable (∀ c ∈ o, p c) :=
  match o with
  | none => isTrue (fun _ h => nomatch h)
  | some c => decidable_of_iff (p c) ⟨fun h _ hc => Option.some.inj hc ▸ h, fun h => h c rfl⟩

namespace Text

def ofNat (n : Nat) : Text := Nat.toDigits 10 n

/-! ## Splitting at a separator -/

/-- Put `c` in front of the first piece. -/
def consHead (c : Char) : List Text → List Text
  | [] => [[c]]
  | p :: ps => (c :: p) :: ps

/-- The pieces of a text between the separators `sep`; a text without separator is one piece. -/
def splitOn (sep : Char) : Text → List Text
  | [] => [[]]
  | c :: cs => if c = sep then [] :: splitOn sep cs else consHead c (splitOn sep cs)

@[simp] theorem consHead_ne_nil (c : Char) (ps : List Text) : consHead c ps ≠ [] := by
  cases ps <;> simp [consHead]

@[simp] theorem splitOn_ne_nil (sep : Char) (t : Text) : splitOn sep t ≠ [] := by
  cases t with
  | nil => simp [splitOn]
  | cons c cs =>
    rw [splitOn]
    split <;> simp

/-- Joining the pieces with the separator gives the text back. -/
theorem intercalate_splitOn (sep : Char) (t : Text) : [sep].intercalate (splitOn sep t) = t := by
  induction t with
  | nil => rfl
  | cons c cs ih =>
    rw [splitOn]
    cases hs : splitOn sep cs with
    | nil => exact absurd hs (splitOn_ne_nil sep cs)
    | cons p ps =>
      rw [hs] at ih
      split
      · next h => subst h; rw [List.intercalate_cons_cons, ih]; rfl
      · cases ps with
        | nil => simpa [consHead] using ih
        | cons q qs =>
          rw [List.intercalate_cons_cons] at ih
          rw [consHead, List.intercalate_cons_cons, ← ih]
          rfl

/-! ## Fronts and occurrences -/

/-- What follows `p` at the front of a text, if the text starts with `p`. -/
def after? : Text → Text → Option Text
  | [], t => some t
  | _ :: _, [] => none
  | p :: ps, c :: cs => if p = c then after? ps cs else none

theorem after?_eq_some_iff {p t r : Text} : after? p t = some r ↔ t = p ++ r := by
  induction p generalizing t with
  | nil => simp [after?, eq_comm]
  | cons x xs ih =>
    cases t with
    | nil => simp [after?]
    | cons c cs =>
      rw [after?]
      split
      · next h => subst h; simp [ih]
      · next h => simp [Ne.symm h]

/-- `p` stands somewhere in the text. -/
def occursIn (p : Text) : Text → Bool
  | [] => p.isEmpty
  | c :: cs => p.isPrefixOf (c :: cs) || occursIn p cs

theorem occursIn_iff {p t : Text} : occursIn p t = true ↔ p <:+: t := by
  induction t with
  | nil => simp [occursIn]
  | cons c cs ih => simp [occursIn, ih, List.infix_cons_iff]

end Text

end Constify
