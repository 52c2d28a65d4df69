import Constify.Import.Declaration
import Constify.Import.Statement

/-!
# Adding an import

* `Importer.isImported` : whether a text already imports the constant object;
* `Importer.ensure` : the text with an import statement if it needs one.
-/

namespace Constify.Importer

/-- The text imports the constant object: it holds the canonical spelling or a declaration binds
the name. -/
def isImported (i : Importer) (content : Text) : Bool :=
  Text.occursIn i.canonical content ||
    (declarations content).any fun d => d.bindings.contains i.identifier

def needsImport (i : Importer) (content : Text) : Bool :=
  mentions i.identifier content && !i.isImported content

/-- The line end of `line`, a piece of a text between line feeds: a carriage return or nothing. -/
def lineReturn (line : Text) : Text := if line.getLast? = some '\r' then ['\r'] else []

/-- Put the statement after the first declaration, or at the top if there is none. The new line
ends the way the line before it ends, at the top the way the first line does. -/
def insert (i : Importer) (path content : Text) : Text :=
  let lines := Text.splitOn '\n' content
  match declarations content with
  | [] => i.statement path ++ lineReturn (lines.headD []) ++ '\n' :: content
  | d :: _ =>
    let line := i.statement path ++ lineReturn (lines.getD d.last [])
    ['\n'].intercalate (lines.take (d.last + 1) ++ line :: lines.drop (d.last + 1))

/-- The text with an import of the constant object, if it mentions the object without importing
it. -/
def ensure (i : Importer) (path content : Text) : Text :=
  if i.needsImport content then i.insert path content else content

end Constify.Importer
