import Constify.Text.Basic

/-!
# Lines

* `Text.lines` : the lines of a text for comparison, without their terminators;
* `Text.splitOn '\n'` is the finer view that keeps carriage returns and an empty last line.
-/

namespace Constify.Text

/-- The line without one carriage return at its end. -/
def stripReturn (line : Text) : Text :=
  if line.getLast? = some '\r' then line.dropLast else line

/-- The lines of a text. A line ends with a line feed or a carriage return and a line feed; what
follows the last line feed is a line only if it is not empty. -/
def lines (t : Text) : List Text :=
  let pieces := splitOn '\n' t
  let last := pieces.getLastD []
  pieces.dropLast.map stripReturn ++ if last = [] then [] else [last]

end Constify.Text
