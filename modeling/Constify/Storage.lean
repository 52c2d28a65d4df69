import Constify.Tree.Basic

/-!
# Storage

* `Storage m` : the file operations that a run needs, in a monad `m`;
* `Tree.storage` : the operations on a file tree held as a state.
-/

namespace Constify

/-- The file operations that a run needs. -/
structure Storage (m : Type → Type) where
  /-- The text of a file. -/
  readText (path : Bytes) : m (Except ReadFault Text)
  /-- Replace the text of a file. -/
  writeText (path : Bytes) (text : Text) : m (Except ReadFault Unit)
  /-- Whether a path leads to a file. -/
  isFile (path : Bytes) : m Bool
  /-- The relative paths of the files below a directory, or nothing if there is no directory. -/
  filesBelow (path : Bytes) : m (Option (List Bytes))

/-- The file operations on a tree held as a state, seen from the working directory `here`. A failing
write changes nothing. -/
def Tree.storage (here : List Bytes) : Storage (StateM Tree) where
  readText path := return (← get).readText here path
  writeText path text := do
    match (← get).writeText here path text with
    | .ok t => set t; return .ok ()
    | .error fault => return .error fault
  isFile path := return (← get).isFile here path
  filesBelow path := return (← get).filesBelow here path

end Constify
