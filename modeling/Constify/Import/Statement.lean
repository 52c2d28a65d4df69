import Constify.Path

/-!
# Import statements

* `Depth` : how many directories a file lies below the directory of its modules;
* `Layout` : the directory names that decide the depth (`Layout.depth`);
* `Importer` : the constant object, its module and the layout;
* `Importer.statement` : the import statement for a file at a path.
-/

namespace Constify

/-- How far a file lies below the directory that module paths start from. -/
inductive Depth where
  | parent
  | nested
  | deep
  deriving DecidableEq, Repr

namespace Depth

def levels : Depth → Nat
  | parent => 1
  | nested => 2
  | deep => 3

def climb (d : Depth) : Text := (List.replicate d.levels "../".toList).flatten

end Depth

/-- The directory names that decide the depth of a file. -/
structure Layout where
  nested : List Text
  deep : List Text
  deriving DecidableEq, Repr

namespace Layout

def standard : Layout where
  nested := ["tests".toList, "logic".toList, "utils".toList, "export".toList, "premium".toList,
    "storage".toList]
  deep := ["components".toList, "pages".toList]

/-- The depth of a file: nested if a name of its path is in the nested family, else deep if one is
in the deep family, else parent. -/
def depth (l : Layout) (path : Text) : Depth :=
  let names := Path.names path
  if names.any (l.nested.contains ·) then .nested
  else if names.any (l.deep.contains ·) then .deep
  else .parent

end Layout

/-- What an import statement needs to know: the name of the constant object, the path of its module
and the layout of the tree. -/
structure Importer where
  identifier : Text
  module : Text
  layout : Layout
  deriving DecidableEq, Repr

namespace Importer

def standardModule : Text := "core/constants/categories".toList

/-- The front of the import statement; a text that holds it needs no import. -/
def canonical (i : Importer) : Text := "import \x7b ".toList ++ i.identifier ++ " \x7d".toList

def statement (i : Importer) (path : Text) : Text :=
  i.canonical ++ " from \"".toList ++ (i.layout.depth path).climb ++ i.module ++ "\";".toList

end Importer

end Constify
