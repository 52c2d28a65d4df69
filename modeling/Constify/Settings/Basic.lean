import Constify.Import.Statement
import Constify.Table.Basic
import Constify.Text.Blank

/-!
# Settings

* `Settings` : what to scan, the constant table and the layout of the tree;
* `Settings.standard` : the settings used when nothing is given;
* `SettingsFault`, `Settings.fault?` : the first value that is out of range;
* `Settings.rootPath`, `Settings.importer`, `Settings.listedTable` : what a run takes from settings.
-/

namespace Constify

/-- Where the constant table comes from: the object's name, the module that import statements name,
a source file to read the entries from, or else a list of tags. -/
structure Constants where
  identifier : Text
  module : Text
  source : Option Text
  categories : Option (List Text)
  deriving DecidableEq, Repr

structure Settings where
  root : Text
  extensions : List Text
  exclude : List Text
  constants : Constants
  layout : Layout
  deriving DecidableEq, Repr

def Constants.standard : Constants where
  identifier := Table.standardIdentifier
  module := Importer.standardModule
  source := none
  categories := none

/-- Why settings cannot be used. -/
inductive SettingsFault where
  | noExtensions
  | extension (text : Text)
  | identifier (name : Text)
  | noModule
  | noCategories
  | category (name : Text)
  deriving DecidableEq, Repr

def SettingsFault.message : SettingsFault → Text
  | .noExtensions => "extensions must not be empty".toList
  | .extension text =>
    "extension '".toList ++ text ++ "' must be non-empty and have no leading dot".toList
  | .identifier name => "constants.identifier '".toList ++ name ++ "' is not a valid identifier".toList
  | .noModule => "constants.module must not be empty".toList
  | .noCategories => "constants.categories must not be empty".toList
  | .category name => "category '".toList ++ name ++ "' is not a valid identifier".toList

namespace Settings

def standard : Settings where
  root := "src".toList
  extensions := ["ts".toList, "tsx".toList]
  exclude := ["node_modules".toList, ".git".toList, "dist".toList, "build".toList,
    "categories.ts".toList]
  constants := Constants.standard
  layout := Layout.standard

def isExtension (e : Text) : Bool := e != [] && e.head? != some '.'

/-- The first fault of a list of tags. -/
def categoriesFault? (names : List Text) : Option SettingsFault :=
  if names = [] then some .noCategories
  else (names.find? fun name => !isIdentifier name).map .category

/-- The first fault of the settings: of the extensions, the identifier, the module, then the tags. -/
def fault? (s : Settings) : Option SettingsFault :=
  if s.extensions = [] then some .noExtensions
  else
    match s.extensions.find? fun e => !isExtension e with
    | some e => some (.extension e)
    | none =>
      if !isIdentifier s.constants.identifier then some (.identifier s.constants.identifier)
      else if s.constants.module.trim = [] then some .noModule
      else s.constants.categories.bind categoriesFault?

theorem fault?_standard : standard.fault? = none := by decide

/-- The directory to scan, as seen from `base`. -/
def rootPath (s : Settings) (base : Text) : Text := Path.join base s.root

def importer (s : Settings) : Importer where
  identifier := s.constants.identifier
  module := s.constants.module
  layout := s.layout

/-- The table of the listed tags, or of the usual ones where none are listed. -/
def listedTable (s : Settings) : Except TableFault Table :=
  Table.ofNames s.constants.identifier (s.constants.categories.getD Table.standardNames)

end Settings

end Constify
