import Constify.Toml.Scanner
import Constify.Toml.Value

/-!
# Scalars

* `Scanner.string` : the four kinds of strings, with their escapes;
* `Scanner.dateTime` : dates, times and both, checked against the calendar;
* `Scanner.float` : floats that do not round to positive infinity;
* `Scanner.integer` : integers of 64 bits in four bases;
* `Scanner.scalar` : any of these, or a boolean.
-/

namespace Constify.Toml

/-! ## Strings -/

def hexDigit? (c : Char) : Option Nat :=
  if c.isDigit then some (c.toNat - '0'.toNat)
  else if 'a' ≤ c ∧ c ≤ 'f' then some (c.toNat - 'a'.toNat + 10)
  else if 'A' ≤ c ∧ c ≤ 'F' then some (c.toNat - 'A'.toNat + 10)
  else none

/-- The number that digits of a base make, the first digit being the highest. -/
def ofDigits (base : Nat) (digits : List Nat) : Nat := digits.foldl (fun n d => n * base + d) 0

/-- The number that the characters of digits make; a character that is no digit counts as zero. -/
def numberOf (base : Nat) (digits : Text) : Nat :=
  ofDigits base (digits.map fun c => (hexDigit? c).getD 0)

namespace Scanner

/-- A character given by the `n` hexadecimal digits of its code point. -/
def codePoint (n : Nat) : Scanner Char := fun t =>
  match (t.take n).mapM hexDigit? with
  | none => none
  | some digits =>
    let v := ofDigits 16 digits
    if digits.length = n ∧ v.isValidChar then
      some (Char.ofNat v, ⟨t.drop n, (List.drop_suffix n t).length_le⟩)
    else none

def escape : Scanner Char := do
  match ← satisfy fun _ => true with
  | 'b' => return '\x08'
  | 't' => return '\t'
  | 'n' => return '\n'
  | 'f' => return '\x0c'
  | 'r' => return '\r'
  | '"' => return '"'
  | '\\' => return '\\'
  | 'u' => codePoint 4
  | 'U' => codePoint 8
  | _ => fail

/-- The rest of a one-line string in double quotes. -/
def basicRest (t : Text) : Option (Text × Tail t) :=
  match t with
  | [] => none
  | '"' :: r => some ([], ⟨r, Nat.le_succ _⟩)
  | '\\' :: r =>
    match escape r with
    | none => none
    | some (c, s) =>
      (basicRest s.1).map fun (cs, u) => (c :: cs, (s.trans u).cons)
  | c :: r =>
    if isPlain c then
      (basicRest r).map fun (cs, u) => (c :: cs, u.cons)
    else none
termination_by t.length
decreasing_by
  · exact Nat.lt_succ_of_le s.2
  · exact Nat.lt_succ_self _

/-- The rest of a one-line string in single quotes, which has no escapes. -/
def literalRest (t : Text) : Option (Text × Tail t) :=
  match t with
  | [] => none
  | '\'' :: r => some ([], ⟨r, Nat.le_succ _⟩)
  | c :: r =>
    if isPlain c then
      (literalRest r).map fun (cs, u) => (c :: cs, u.cons)
    else none

def skipBlankLines : Text → Text
  | ' ' :: r => skipBlankLines r
  | '\t' :: r => skipBlankLines r
  | '\n' :: r => skipBlankLines r
  | '\r' :: '\n' :: r => skipBlankLines r
  | t => t

theorem length_skipBlankLines_le (t : Text) : (skipBlankLines t).length ≤ t.length := by
  fun_induction skipBlankLines t <;> grind

/-- A line end hidden by the backslash before it, with the blank lines and spaces that follow. -/
def hiddenLineEnd? (t : Text) : Option (Tail t) :=
  let r := skipSpace t
  (newline? r.1).map fun s =>
    ⟨skipBlankLines s.1, by have := length_skipBlankLines_le s.1; have := s.2; have := r.2; omega⟩

/-- The rest of a string over several lines, closed by three quotes `q`, up to two of the same kind
standing directly before them. Escapes belong to double quotes. A line end is a line feed. -/
def blockRest (q : Char) (t : Text) : Option (Text × Tail t) :=
  match t with
  | [] => none
  | c :: r =>
    if c = q then
      if [q, q].isPrefixOf r then
        let extra := ((r.drop 2).takeWhile (· == q)).take 2
        some (extra, Tail.cons ⟨r.drop (2 + extra.length), (List.drop_suffix ..).length_le⟩)
      else (blockRest q r).map fun (cs, u) => (c :: cs, u.cons)
    else if c = '\n' ∨ isPlain c ∧ ¬(c = '\\' ∧ q = '"') then
      (blockRest q r).map fun (cs, u) => (c :: cs, u.cons)
    else if c = '\\' then
      match hiddenLineEnd? r with
      | some s =>
        (blockRest q s.1).map fun (cs, u) => (cs, (s.trans u).cons)
      | none =>
        match escape r with
        | none => none
        | some (e, s) =>
          (blockRest q s.1).map fun (cs, u) => (e :: cs, (s.trans u).cons)
    else if c = '\r' then
      match r with
      | '\n' :: s =>
        (blockRest q s).map fun (cs, u) => ('\n' :: cs, u.cons.cons)
      | _ => none
    else none
termination_by t.length
decreasing_by
  all_goals simp only [List.length_cons]
  · omega
  · omega
  · have := s.2; omega
  · have := s.2; omega
  · omega

def newline : Scanner Unit := fun t =>
  match newline? t with
  | none => none
  | some r => some ((), ⟨r.1, Nat.le_of_lt r.2⟩)

def blockString (q : Char) : Scanner Text := do
  char q
  char q
  char q
  let _ ← optional newline
  blockRest q

def lineString : Scanner Text := do
  match ← satisfy fun _ => true with
  | '"' => basicRest
  | '\'' => literalRest
  | _ => fail

def string : Scanner Text := ((blockString '"').orElse (blockString '\'')).orElse lineString

/-! ## Dates and times -/

def twoDigits (low high : Nat) : Scanner Nat := do
  let a ← satisfy Char.isDigit
  let b ← satisfy Char.isDigit
  let n := numberOf 10 [a, b]
  check (low ≤ n && n ≤ high)
  return n

def daysIn (year month : Nat) : Nat :=
  if month = 2 then
    if year % 4 = 0 ∧ (year % 100 ≠ 0 ∨ year % 400 = 0) then 29 else 28
  else if month = 4 ∨ month = 6 ∨ month = 9 ∨ month = 11 then 30
  else 31

def date : Scanner Unit := do
  let century ← twoDigits 0 99
  let year ← twoDigits 0 99
  char '-'
  let month ← twoDigits 1 12
  char '-'
  let day ← twoDigits 1 31
  check (day ≤ daysIn (century * 100 + year) month)

def time : Scanner Unit := do
  let _ ← twoDigits 0 23
  char ':'
  let _ ← twoDigits 0 59
  char ':'
  let _ ← twoDigits 0 60
  let _ ← optional do
    char '.'
    takeWhile1 Char.isDigit

def offset : Scanner Unit := do
  match ← satisfy fun _ => true with
  | 'Z' => return ()
  | 'z' => return ()
  | '+' | '-' =>
    let _ ← twoDigits 0 23
    char ':'
    let _ ← twoDigits 0 59
  | _ => fail

/-- A date, a time, or a date and a time with or without an offset. -/
def dateTime : Scanner Unit :=
  orElse (do
    date
    let _ ← optional do
      let _ ← satisfy fun c => c == 'T' || c == 't' || c == ' '
      time
      optional offset)
    time

/-! ## Numbers -/

def sign : Scanner Bool := do
  let c ← optional (satisfy fun c => c == '+' || c == '-')
  return c == some '-'

/-- The digits of a decimal number without leading zeros. -/
def wholeDigits : Scanner Text :=
  orElse (do char '0'; return ['0']) (digits Char.isDigit)

def exponent : Scanner Int := do
  let _ ← satisfy fun c => c == 'e' || c == 'E'
  let negative ← sign
  let ds ← digits Char.isDigit
  let n : Int := numberOf 10 ds
  return if negative then -n else n

/-- The smallest number that rounds to infinity in double precision. -/
def infinityBound : Nat := Nat.pow 2 1024 - Nat.pow 2 970

/-- The number `n · 10^e` rounds to infinity in double precision. -/
def overflows (n : Nat) (e : Int) : Bool :=
  let places := (Nat.toDigits 10 n).length + e
  if n = 0 ∨ places ≤ 308 then false
  else if 310 ≤ places then true
  else if 0 ≤ e then infinityBound ≤ n * Nat.pow 10 e.toNat
  else infinityBound * Nat.pow 10 (-e).toNat ≤ n

/-- A float with digits: an exponent or a fraction follows the whole part. A positive one must not
round to infinity. -/
def digitsFloat : Scanner Unit := do
  let negative ← sign
  let whole ← wholeDigits
  let fraction ← optional do
    char '.'
    digits Char.isDigit
  let e ← optional exponent
  check (fraction.isSome || e.isSome)
  let fraction := fraction.getD []
  check (negative || !overflows (numberOf 10 (whole ++ fraction)) (e.getD 0 - fraction.length))

def word (w : Text) : Scanner Unit := fun t =>
  if w.isPrefixOf t then some ((), ⟨t.drop w.length, (List.drop_suffix _ t).length_le⟩) else none

/-- A float, or one of the words `inf` and `nan` with or without a sign. -/
def float : Scanner Unit :=
  digitsFloat.orElse do
    let _ ← sign
    orElse (word "inf".toList) (word "nan".toList)

def decimalInteger : Scanner Int := do
  let negative ← sign
  let n : Int := numberOf 10 (← wholeDigits)
  return if negative then -n else n

/-- An integer in the base that the letter after a zero names. -/
def baseInteger (letter : Char) (base : Nat) (p : Char → Bool) : Scanner Int := do
  char '0'
  char letter
  return numberOf base (← digits p)

/-- An integer of 64 bits. -/
def integer : Scanner Int := do
  let n ← (((baseInteger 'x' 16 fun c => (hexDigit? c).isSome).orElse
    (baseInteger 'o' 8 fun c => '0' ≤ c && c ≤ '7')).orElse
    (baseInteger 'b' 2 fun c => c == '0' || c == '1')).orElse decimalInteger
  check (Int64.minValue.toInt ≤ n && n ≤ Int64.maxValue.toInt)
  return n

/-! ## Any scalar -/

def boolean : Scanner Bool :=
  orElse (do word "true".toList; return true) (do word "false".toList; return false)

/-- A value that is no array and no table. -/
def scalar : Scanner Value :=
  ((((do return .string (← string) : Scanner Value).orElse
    (do return .dateTime (← lexeme dateTime))).orElse
    (do return .float (← lexeme float))).orElse
    (do return .integer (← integer))).orElse
    (do return .boolean (← boolean))

end Scanner

end Constify.Toml
