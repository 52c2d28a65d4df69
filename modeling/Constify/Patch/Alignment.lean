/-!
# Aligning two lists of lines

* `Step` : keep a line, remove an old one or add a new one;
* `lcsRows` : the lengths of the longest common subsequences of all pairs of tails;
* `alignment` : the steps that turn one list into another. In a run of changes the removals come
  first.
-/

namespace Constify

inductive Step where
  | keep
  | remove
  | add
  deriving DecidableEq, Repr

namespace Alignment

variable {α : Type} [DecidableEq α]

/-- The row of the old line `a` and what follows it, from the row `below` of what follows it: entry
`j` is the length of a longest common subsequence with the new lines from `j` on. -/
def nextRow (a : α) : List α → List Nat → List Nat
  | b :: bs, x :: below =>
    let row := nextRow a bs below
    (if a = b then below.headD 0 + 1 else max x (row.headD 0)) :: row
  | _, _ => [0]

/-- The rows of all tails of the old lines, the longest tail first. -/
def lcsRows : List α → List α → List (List Nat)
  | [], new => [List.replicate (new.length + 1) 0]
  | a :: old, new =>
    let rows := lcsRows old new
    nextRow a new (rows.headD []) :: rows

/-- Walk through the rows, where `j` new lines lie behind and `pending` of them are still to be
added: equal lines are kept, a new line is passed by if that loses nothing, else the old line is
removed. -/
def walk : List α → List α → List (Array Nat) → (j pending : Nat) → List Step
  | a :: old, b :: new, row :: rows, j, pending =>
    if a = b then List.replicate pending .add ++ .keep :: walk old new rows (j + 1) 0
    else if (rows.headD #[]).getD j 0 ≤ row.getD (j + 1) 0 then
      walk (a :: old) new (row :: rows) (j + 1) (pending + 1)
    else .remove :: walk old (b :: new) rows j pending
  | old, new, _, _, pending =>
    List.replicate old.length .remove ++ List.replicate (pending + new.length) .add
termination_by old new => old.length + new.length

def replacement (old new : List α) : List Step :=
  List.replicate old.length .remove ++ List.replicate new.length .add

def maxCells : Nat := 4000000

end Alignment

/-- The steps that turn the old lines into the new ones: along a longest common subsequence, or a
plain replacement where the table of rows would be too large or one side is empty. -/
def alignment {α : Type} [DecidableEq α] (old new : List α) : List Step :=
  if old.length = 0 ∨ new.length = 0 ∨ Alignment.maxCells < old.length * new.length then
    Alignment.replacement old new
  else Alignment.walk old new ((Alignment.lcsRows old new).map List.toArray) 0 0

end Constify
