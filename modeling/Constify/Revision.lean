import Constify.Import.Insertion
import Constify.Substitution

/-!
# Revising one text

* `Lifter` : the table and the import statements of a run;
* `Revision` : a text before and after;
* `Lifter.revise` : literals become references and, if any did, the import is added.
-/

namespace Constify

/-- A text before and after a run, with the substitutions made and whether an import was added. -/
structure Revision where
  path : Bytes
  before : Text
  after : Text
  hits : List Hit
  importAdded : Bool
  deriving DecidableEq, Repr

namespace Revision

def changed (r : Revision) : Bool := r.after != r.before

def substitutions (r : Revision) : Nat := totalCount r.hits

end Revision

/-- What it takes to revise a text: the table and the import statements. -/
structure Lifter where
  table : Table
  importer : Importer

/-- Revise a text as that of the file at the path. An import is added only if a literal became a
reference. -/
def Lifter.revise (l : Lifter) (path before : Text) : Revision :=
  let lifted := l.table.lift before
  if lifted.content = before then
    { path, before, after := before, hits := lifted.hits, importAdded := false }
  else
    let after := l.importer.ensure path lifted.content
    { path, before, after, hits := lifted.hits, importAdded := after != lifted.content }

end Constify
