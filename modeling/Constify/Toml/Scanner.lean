import Constify.Text.Basic

/-!
# Scanners

A scanner takes a value off the front of a text and leaves a rest that is no longer than the text.
The bound is part of the result, so a loop that also takes a separator ends.

* `Scanner` with `pure`, `bind`, `Scanner.orElse`, `Scanner.optional`, `Scanner.lexeme`;
* `Scanner.satisfy`, `Scanner.char`, `Scanner.takeWhile`, `Scanner.digits` : the leaves;
* `skipSpace`, `skipComment`, `lineEnd?`, `skipTrivia` : what may stand between tokens.
-/

namespace Constify.Toml

abbrev Tail (t : Text) := { r : Text // r.length ≤ t.length }

def Tail.trans {t : Text} (r : Tail t) (s : Tail r.1) : Tail t := ⟨s.1, Nat.le_trans s.2 r.2⟩

def Tail.cons {c : Char} {t : Text} (r : Tail t) : Tail (c :: t) := ⟨r.1, Nat.le_succ_of_le r.2⟩

/-- A scanner takes a value off the front of a text, or fails. -/
def Scanner (α : Type) := (t : Text) → Option (α × Tail t)

namespace Scanner

variable {α β : Type}

instance : Monad Scanner where
  pure a := fun t => some (a, ⟨t, Nat.le_refl _⟩)
  bind m f := fun t =>
    match m t with
    | none => none
    | some (a, r) => (f a r.1).map fun (b, s) => (b, r.trans s)

def fail : Scanner α := fun _ => none

def check (b : Bool) : Scanner Unit := if b then pure () else fail

def orElse (a b : Scanner α) : Scanner α := fun t => (a t).or (b t)

/-- What the scanner takes, or nothing where it fails. -/
def optional (a : Scanner α) : Scanner (Option α) := (do return some (← a)).orElse (pure none)

/-- The characters that the scanner takes. -/
def lexeme (a : Scanner α) : Scanner Text := fun t =>
  (a t).map fun (_, r) => (t.take (t.length - r.1.length), r)

/-! ## Leaves -/

def satisfy (p : Char → Bool) : Scanner Char := fun t =>
  match t with
  | [] => none
  | c :: r => if p c then some (c, ⟨r, Nat.le_succ _⟩) else none

def char (c : Char) : Scanner Unit := do
  let _ ← satisfy (· == c)

def takeWhile (p : Char → Bool) : Scanner Text := fun t =>
  some (t.takeWhile p, ⟨t.dropWhile p, (List.dropWhile_suffix p).length_le⟩)

def takeWhile1 (p : Char → Bool) : Scanner Text := do
  let c ← satisfy p
  let cs ← takeWhile p
  return c :: cs

/-- More digits, where single underscores between digits are left out. -/
def moreDigits (p : Char → Bool) (t : Text) : Option (Text × Tail t) :=
  match t with
  | '_' :: d :: r =>
    if p d then
      (moreDigits p r).map fun (ds, s) => (d :: ds, s.cons.cons)
    else some ([], ⟨_, Nat.le_refl _⟩)
  | c :: r =>
    if p c then (moreDigits p r).map fun (ds, s) => (c :: ds, s.cons)
    else some ([], ⟨_, Nat.le_refl _⟩)
  | [] => some ([], ⟨_, Nat.le_refl _⟩)

/-- One or more digits, where single underscores between digits are left out. -/
def digits (p : Char → Bool) : Scanner Text := do
  let d ← satisfy p
  let ds ← moreDigits p
  return d :: ds

end Scanner

/-! ## Between tokens -/

def isSpace (c : Char) : Bool := c == ' ' || c == '\t'

/-- The characters of comments and of one-line strings: no control character but the tab. -/
def isPlain (c : Char) : Bool := c == '\t' || (' ' ≤ c && c != '\x7f')

def skipSpace (t : Text) : Tail t := ⟨t.dropWhile isSpace, (List.dropWhile_suffix _).length_le⟩

def Scanner.space : Scanner Unit := fun t => some ((), skipSpace t)

def skipComment (t : Text) : Tail t :=
  match t with
  | '#' :: r =>
    ⟨r.dropWhile isPlain, Nat.le_succ_of_le (List.dropWhile_suffix _).length_le⟩
  | t => ⟨t, Nat.le_refl _⟩

/-- What follows a line end at the front of a text. -/
def newline? (t : Text) : Option { r : Text // r.length < t.length } :=
  match t with
  | '\n' :: r => some ⟨r, Nat.lt_succ_self _⟩
  | '\r' :: '\n' :: r => some ⟨r, Nat.lt_succ_of_lt (Nat.lt_succ_self _)⟩
  | _ => none

/-- The rest of a line that holds at most a comment. -/
inductive LineEnd (t : Text) where
  | endOfText
  | newline (rest : { r : Text // r.length < t.length })

def lineEnd? (t : Text) : Option (LineEnd t) :=
  let r := (skipSpace t).trans (skipComment _)
  if r.1 = [] then some .endOfText
  else (newline? r.1).map fun s => .newline ⟨s.1, Nat.lt_of_lt_of_le s.2 r.2⟩

/-- The text without the spaces, line ends and comments at its front, where `inComment` tells that a
comment has been opened. A character that must not stand in a comment stays at the front. -/
def skipTriviaFrom (inComment : Bool) : Text → Text
  | [] => []
  | '\n' :: r => skipTriviaFrom false r
  | '\r' :: '\n' :: r => skipTriviaFrom false r
  | c :: r =>
    if inComment then
      if isPlain c then skipTriviaFrom true r else c :: r
    else if isSpace c then skipTriviaFrom false r
    else if c = '#' then skipTriviaFrom true r
    else c :: r

theorem length_skipTriviaFrom_le (inComment : Bool) (t : Text) :
    (skipTriviaFrom inComment t).length ≤ t.length := by
  fun_induction skipTriviaFrom inComment t <;> grind

/-- The text without the spaces, line ends and comments at its front. -/
def skipTrivia (t : Text) : Tail t := ⟨skipTriviaFrom false t, length_skipTriviaFrom_le _ _⟩

end Constify.Toml
