import Constify.Substitution

/-!
# Reports

* `UpdatedFile`, `FailedFile` : a file that a run changed, and one that it could not process;
* `Report` : what a run did.
-/

namespace Constify

/-- A file that a run changed or, in a dry run, would change. The patch is given in dry runs. -/
structure UpdatedFile where
  path : Text
  substitutions : Nat
  importAdded : Bool
  hits : List Hit
  diff : Option Text
  deriving DecidableEq, Repr

structure FailedFile where
  path : Text
  error : Text
  deriving DecidableEq, Repr

/-- What a run did. Paths of files are relative to the root. -/
structure Report where
  root : Text
  dryRun : Bool
  scanned : Nat
  updated : List UpdatedFile
  failed : List FailedFile
  deriving DecidableEq, Repr

end Constify
