import Constify.Text.Bytes

/-!
# Paths

A path is a row of segments with slashes between them. It is written in bytes for the file system, and
in characters elsewhere. Nothing is normalised.

* `PathUnit` : what a path is written in;
* `Path.segments`, `Path.names` : all segments, and those that name something;
* `Path.join` : a path as seen from another;
* `Path.through`, `Path.ofNames` : the path through directories;
* `Path.extension?` : the extension of the last name.
-/

namespace Constify

/-- What a path is written in. -/
class PathUnit (α : Type) where
  slash : α
  dot : α

instance : PathUnit Char := ⟨'/', '.'⟩

instance : PathUnit UInt8 := ⟨'/'.toUInt8, '.'.toUInt8⟩

namespace Path

open PathUnit

variable {α : Type} [DecidableEq α] [PathUnit α]

def segments (p : List α) : List (List α) := p.splitOn slash

/-- The segments that name an entry of a directory: not empty, not `.` and not `..`. -/
def names (p : List α) : List (List α) :=
  (segments p).filter fun s => s != [] && s != [dot] && s != [dot, dot]

def isAbsolute (p : List α) : Bool := p.head? == some slash

/-- The path `p` as seen from `base`: an absolute `p` stands for itself, and a slash is put between
the two unless `base` is empty or ends with one. -/
def join (base p : List α) : List α :=
  if isAbsolute p then p
  else if base = [] ∨ base.getLast? = some slash then base ++ p
  else base ++ slash :: p

/-- The path through directories of these names, the last name being that of its end. -/
def through (names : List (List α)) : List α := [slash].intercalate names

def ofNames (names : List Text) : Text := through names

/-- What follows the last dot of a name, unless that dot is its first unit or there is none. -/
def nameExtension? (name : List α) : Option (List α) :=
  match name.reverse.dropWhile fun c => c != dot with
  | _ :: _ :: _ => some (name.reverse.takeWhile fun c => c != dot).reverse
  | _ => none

/-- The extension of the last segment that is not empty and not `.`; a last segment `..` has none. -/
def extension? (p : List α) : Option (List α) :=
  match ((segments p).filter fun s => s != [] && s != [dot]).getLast? with
  | none => none
  | some name => if name = [dot, dot] then none else nameExtension? name

end Path

end Constify
