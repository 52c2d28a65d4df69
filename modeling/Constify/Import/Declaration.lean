import Constify.Identifier
import Constify.Text.Blank
import Constify.Text.Word

/-!
# Import declarations of a module

* `Clause.bindings` : the local names that an import clause binds;
* `Declaration.clause?` : the clause and the module of the text of a declaration;
* `Declaration.extraLines` : how many more lines a declaration takes after its first;
* `declarations` : the declarations of a module's text, from the first line to the last.
-/

namespace Constify

/-- An import declaration: its first and last line, counted from zero, the local names it binds and
its module, if that could be read. -/
structure Declaration where
  first : Nat
  last : Nat
  bindings : List Text
  source : Option Text
  deriving DecidableEq, Repr

namespace Clause

/-- The parts between commas without the blanks around them, leaving out empty parts. -/
def parts (t : Text) : List Text :=
  ((Text.splitOn ',' t).map Text.trim).filter fun p => p != []

/-- The text before the first brace `{`, the text between it and the last brace `}`, and the text
after that, if the braces stand in this order. -/
def braced? (clause : Text) : Option (Text × Text × Text) :=
  match clause.dropWhile fun c => c != '{' with
  | [] => none
  | _ :: inside =>
    match inside.reverse.dropWhile fun c => c != '}' with
    | [] => none
    | _ :: named =>
      some (clause.takeWhile fun c => c != '{', named.reverse,
        (inside.reverse.takeWhile fun c => c != '}').reverse)

/-- The name that a part outside the braces binds: `* as ns` binds `ns`, an identifier itself. -/
def outerBinding? (part : Text) : Option Text :=
  match part with
  | '*' :: rest => (Text.after? "as".toList (Text.trim rest)).map Text.trim
  | _ => if isIdentifier part then some part else none

def afterFirst? (p : Text) : Text → Option Text
  | [] => Text.after? p []
  | c :: cs => (Text.after? p (c :: cs)).or (afterFirst? p cs)

/-- The name that a part inside the braces binds: the alias of `name as alias`, else the part, in
both cases without a leading `type`. -/
def namedBinding? (part : Text) : Option Text :=
  let spec := ((Text.after? "type ".toList part).getD part).trim
  let name := ((afterFirst? " as ".toList spec).map Text.trim).getD spec
  if isIdentifier name then some name else none

/-- The local names that a clause binds: those outside the braces, then those inside. -/
def bindings (clause : Text) : List Text :=
  match braced? clause with
  | some (before, named, after) =>
    (parts (before ++ ' ' :: after)).filterMap outerBinding? ++
      (parts named).filterMap namedBinding?
  | none => (parts clause).filterMap outerBinding?

end Clause

namespace Declaration

/-! ## The text of one declaration -/

/-- The characters up to the closing quote, in a text that starts with a quote of either kind. The
two quotes need not be of the same kind. -/
def quotedModule? : Text → Option Text
  | [] => none
  | q :: cs =>
    if isQuote q then
      match cs.dropWhile fun c => !isQuote c with
      | [] => none
      | _ :: _ => some (cs.takeWhile fun c => !isQuote c)
    else none

/-- The module of the text `from "module"`, where `before` is the character before it. -/
def fromModule? (before : Option Char) (t : Text) : Option Text :=
  if atBoundary before then
    (Text.after? "from".toList t).bind fun r => quotedModule? r.trimStart
  else none

/-- Split a text, which follows the character `before`, at its first `from "module"`. -/
def splitFrom? (before : Option Char) : Text → Option (Text × Text)
  | [] => none
  | c :: cs =>
    match fromModule? before (c :: cs) with
    | some source => some ([], source)
    | none => (splitFrom? (some c) cs).map fun s => (c :: s.1, s.2)

def afterBlanks? (t : Text) : Option Text :=
  if t.head?.any isBlank then some t.trimStart else none

/-- The clause and the module of a declaration that names what it imports. -/
def clause? (t : Text) : Option (Text × Text) :=
  ((Text.after? "import".toList t).bind afterBlanks?).bind fun t =>
    let t := ((Text.after? "type".toList t).bind afterBlanks?).getD t
    (splitFrom? (some ' ') t).map fun s => (Text.trimEnd s.1, s.2)

def bareModule? (t : Text) : Option Text :=
  ((Text.after? "import".toList t).bind afterBlanks?).bind quotedModule?

def ofText (first last : Nat) (t : Text) : Declaration :=
  match clause? t with
  | some (clause, source) => ⟨first, last, Clause.bindings clause, some source⟩
  | none => ⟨first, last, [], bareModule? t⟩

/-! ## The lines of one declaration -/

/-- How many more braces a line opens than it closes. -/
def braceBalance (line : Text) : Int := (line.count '{' : Int) - (line.count '}' : Int)

/-- How many lines it takes to bring the balance down from `depth` to zero or less; none if the
lines do not suffice. -/
def linesToClose? (depth : Int) : List Text → Option Nat
  | [] => if depth ≤ 0 then some 0 else none
  | line :: lines =>
    if depth ≤ 0 then some 0 else (linesToClose? (depth + braceBalance line) lines).map (· + 1)

def extraLines (line : Text) (following : List Text) : Nat :=
  (linesToClose? (braceBalance line) following).getD 0

def isStart (line : Text) : Bool := "import ".toList.isPrefixOf line

/-- The declarations of the lines, the first of which has the given number. -/
def ofLines (number : Nat) : List Text → List Declaration
  | [] => []
  | line :: lines =>
    if isStart line then
      let extra := extraLines line lines
      ofText number (number + extra) (['\n'].intercalate (line :: lines.take extra)) ::
        ofLines (number + extra + 1) (lines.drop extra)
    else ofLines (number + 1) lines
termination_by lines => lines.length
decreasing_by
  · exact Nat.lt_succ_of_le (List.drop_suffix ..).length_le
  · exact Nat.lt_succ_self _

end Declaration

def declarations (content : Text) : List Declaration :=
  Declaration.ofLines 0 (Text.splitOn '\n' content)

end Constify
