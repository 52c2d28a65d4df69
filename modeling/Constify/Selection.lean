import Constify.Path

/-!
# Selecting files

* `Selection` : the extensions to visit and the texts that exclude a path;
* `Candidate` : a selected file;
* `Selection.candidates` : the selected files among those below a directory, sorted.
-/

namespace Constify

/-- Which files to visit: those with one of the extensions, written without the dot, whose relative
path as it is shown has none of the excluded texts in it. -/
structure Selection where
  extensions : List Text
  exclude : List Text
  deriving DecidableEq, Repr

/-- A selected file: its path as reached from the directory that was scanned, and its path relative
to that directory as it is shown. -/
structure Candidate where
  path : Bytes
  relative : Text
  deriving DecidableEq, Repr

/-- The file at a path relative to the directory `root`. -/
def Candidate.below (root path : Bytes) : Candidate := ⟨Path.join root path, path.shown⟩

namespace Selection

def hasExtension (s : Selection) (path : Bytes) : Bool :=
  ((Path.extension? path).bind Bytes.text?).any (s.extensions.contains ·)

def isExcluded (s : Selection) (relative : Text) : Bool :=
  s.exclude.any (Text.occursIn · relative)

def selects (s : Selection) (path : Bytes) : Bool :=
  s.hasExtension path && !s.isExcluded path.shown

/-- The selected files among those below `root`, in the order of their relative paths as they are shown.
Files that are shown alike keep their order. Comparing code points is comparing UTF-8 bytes. -/
def candidates (s : Selection) (root : Bytes) (files : List Bytes) : List Candidate :=
  ((files.filter s.selects).map (Candidate.below root)).mergeSort fun c d =>
    !(decide (d.relative < c.relative))

end Selection

end Constify
