import Constify.Failure
import Constify.Path

/-!
# File trees

* `Tree` : files, symbolic links and directories with named entries;
* `Tree.at?` : what stands at a list of names, links not followed;
* `Tree.alter` : a tree changed at a list of names;
* `Tree.files` : the files below a tree, links neither listed nor entered;
* `Tree.resolve` : the names that a path leads to, links followed;
* `Tree.readText`, `Tree.isFile`, `Tree.filesBelow`, `Tree.writeText` : the file operations.

A path is read from a working directory `here`, given by the names that lead to it from the top
of the tree. A relative path starts there, an absolute one at the top.
-/

namespace Constify

open PathUnit (dot)

/-- A file tree. A directory lists its entries by name. -/
inductive Tree where
  | file (bytes : ByteArray)
  | link (target : Bytes)
  | dir (entries : List (Bytes × Tree))

namespace Tree

def child? (name : Bytes) (entries : List (Bytes × Tree)) : Option Tree :=
  (entries.find? fun e => e.1 == name).map Prod.snd

/-- What stands at a list of names below a tree, links not followed. -/
def at? : List Bytes → Tree → Option Tree
  | [], t => some t
  | name :: names, dir entries => (child? name entries).bind (at? names)
  | _ :: _, _ => none

/-- Change the entry of a name: `change` is given the entry, if there is one, and gives what is to
stand there. -/
def alterEntry (change : Option Tree → Option Tree) (name : Bytes) :
    List (Bytes × Tree) → List (Bytes × Tree)
  | [] => (change none).toList.map fun t => (name, t)
  | e :: es =>
    if e.1 = name then ((change (some e.2)).toList.map fun t => (name, t)) ++ es
    else e :: alterEntry change name es

/-- Change what stands at a list of names, at least one. Missing directories on the way are made,
and nothing is changed below a file or a link. -/
def alter (change : Option Tree → Option Tree) : List Bytes → Tree → Tree
  | [name], dir entries => dir (alterEntry change name entries)
  | name :: names, dir entries =>
    dir (alterEntry (fun t => some (alter change names (t.getD (dir [])))) name entries)
  | _, t => t

/-! ## The files of a tree -/

mutual

/-- The files of a tree with the names that lead to them, links neither listed nor entered. -/
def files : Tree → List (List Bytes × ByteArray)
  | file bytes => [([], bytes)]
  | link _ => []
  | dir entries => filesOfEntries entries

def filesOfEntries : List (Bytes × Tree) → List (List Bytes × ByteArray)
  | [] => []
  | (name, t) :: entries =>
    (files t).map (fun f => (name :: f.1, f.2)) ++ filesOfEntries entries

end

/-! ## Paths -/

def maxLinks : Nat := 40

/-- The number of bytes that a name may have. -/
def maxNameBytes : Nat := 255

/-- The number of bytes that a path must stay below. -/
def maxPathBytes : Nat := 4096

/-- The names that segments lead to from the directory `here`, through at most `links` links. -/
def resolveFrom (t : Tree) (links : Nat) (here : List Bytes) (segments : List Bytes) :
    Except ReadFault (List Bytes) :=
  match segments with
  | [] => .ok here
  | s :: rest =>
    match t.at? here with
    | some (dir entries) =>
      if s = [] ∨ s = [dot] then resolveFrom t links here rest
      else if s = [dot, dot] then resolveFrom t links here.dropLast rest
      else if maxNameBytes < s.length then .error .nameTooLong
      else
        match child? s entries with
        | none => .error .notFound
        | some (link target) =>
          match links with
          | 0 => .error .tooManyLinks
          | links + 1 =>
            resolveFrom t links (if Path.isAbsolute target then [] else here)
              (Path.segments target ++ rest)
        | some _ => resolveFrom t links (here ++ [s]) rest
    | _ => .error .notDirectory
termination_by (links, segments.length)

/-- The names that lead from the top of the tree to where a path leads, every link followed. -/
def resolve (t : Tree) (here : List Bytes) (path : Bytes) : Except ReadFault (List Bytes) :=
  if 0 ∈ path then .error .nulCharacter
  else if path = [] then .error .notFound
  else if maxPathBytes ≤ path.length then .error .nameTooLong
  else resolveFrom t maxLinks (if Path.isAbsolute path then [] else here) (Path.segments path)

def find? (t : Tree) (here : List Bytes) (path : Bytes) : Except ReadFault Tree := do
  match t.at? (← t.resolve here path) with
  | some found => return found
  | none => throw .notFound

/-! ## File operations -/

def readText (t : Tree) (here : List Bytes) (path : Bytes) : Except ReadFault Text := do
  match ← t.find? here path with
  | file bytes =>
    match Text.decode? bytes with
    | some text => return text
    | none => throw .notUtf8
  | _ => throw .isDirectory

def isFile (t : Tree) (here : List Bytes) (path : Bytes) : Bool :=
  match t.find? here path with
  | .ok (file _) => true
  | _ => false

/-- The directory at `names` below the directory at a path can be opened: the system takes its path.
A path that leads to a directory is taken already. -/
def opens (path : Bytes) (names : List Bytes) : Bool :=
  names.isEmpty || decide ((Path.join path (Path.through names)).length < maxPathBytes)

/-- The relative paths of the files below the directory at a path; nothing if there is no directory.
A link at the path itself is followed, links below it are neither listed nor entered. A directory
that cannot be opened is passed over with all that is below it, where the paths are longer still. -/
def filesBelow (t : Tree) (here : List Bytes) (path : Bytes) : Option (List Bytes) :=
  match t.find? here path with
  | .ok (dir entries) =>
    some (((filesOfEntries entries).filter fun f => opens path f.1.dropLast).map fun f =>
      Path.through f.1)
  | _ => none

/-- The tree with a new text in the file at a path. -/
def writeText (t : Tree) (here : List Bytes) (path : Bytes) (text : Text) : Except ReadFault Tree := do
  let names ← t.resolve here path
  match t.at? names with
  | some (file _) => return t.alter (fun _ => some (file text.encode)) names
  | _ => throw .isDirectory

end Tree

end Constify
