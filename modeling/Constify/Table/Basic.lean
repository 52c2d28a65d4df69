import Constify.Identifier

/-!
# Constant tables

A table names a constant object and lists the pairs of a key of that object and the string literal
that the key stands for.

* `Entry`, `Table` : the pairs and the checked table;
* `TableFault` : why a list of pairs is no table;
* `Table.ofEntries` : checks the pairs, first fault first;
* `Table.ofNames` : a table whose literals equal its keys;
* `Table.standard` : the table used when nothing else is given.
-/

namespace Constify

/-- A key of the constant object and the string literal it stands for. -/
structure Entry where
  key : Text
  literal : Text
  deriving DecidableEq, Repr

/-- A literal can be looked for between double quotes: it is not empty and holds no double quote,
backslash or line break. -/
def isQuotable (t : Text) : Bool :=
  !t.isEmpty && t.all fun c => c != '"' && c != '\\' && c != '\r' && c != '\n'

/-- Why pairs do not form a table. -/
inductive TableFault where
  | identifier (name : Text)
  | noEntries
  | key (name : Text)
  | literal (text : Text)
  deriving DecidableEq, Repr

def TableFault.message : TableFault → Text
  | .identifier name => "constant identifier '".toList ++ name ++ "' is not a valid identifier".toList
  | .noEntries => "category table is empty".toList
  | .key name => "category key '".toList ++ name ++ "' is not a valid identifier".toList
  | .literal text =>
    "category literal '".toList ++ text ++ "' cannot be matched as a string literal".toList

def Entry.fault? (e : Entry) : Option TableFault :=
  if isIdentifier e.key then
    if isQuotable e.literal then none else some (.literal e.literal)
  else some (.key e.key)

/-- A constant table: a named object and its entries in order, at least one of them, every key an
identifier and every literal quotable. -/
structure Table where
  identifier : Text
  entries : List Entry
  identifier_valid : isIdentifier identifier = true
  entries_ne_nil : entries ≠ []
  entries_valid : ∀ e ∈ entries, e.fault? = none

namespace Table

/-- The table with these entries, or the first fault: of the identifier, of the list, then of the
entries from first to last. -/
def ofEntries (identifier : Text) (entries : List Entry) : Except TableFault Table :=
  if hi : isIdentifier identifier = true then
    if he : entries = [] then .error .noEntries
    else
      match hf : entries.findSome? Entry.fault? with
      | some fault => .error fault
      | none => .ok ⟨identifier, entries, hi, he, List.findSome?_eq_none_iff.mp hf⟩
  else .error (.identifier identifier)

theorem identifier_of_ofEntries {name : Text} {entries : List Entry} {t : Table}
    (h : ofEntries name entries = .ok t) : t.identifier = name ∧ t.entries = entries := by
  unfold ofEntries at h
  split at h
  · split at h
    · cases h
    · split at h
      · cases h
      · cases h
        exact ⟨rfl, rfl⟩
  · cases h

def ofNames (identifier : Text) (names : List Text) : Except TableFault Table :=
  ofEntries identifier (names.map fun name => ⟨name, name⟩)

/-- How the source refers to an entry: `IDENT.key`. -/
def reference (t : Table) (e : Entry) : Text := t.identifier ++ '.' :: e.key

def standardIdentifier : Text := "CATEGORIES".toList

def standardNames : List Text :=
  ["protein".toList, "carbs".toList, "vegetables".toList, "fruits".toList, "dairy".toList,
    "fats".toList, "grains".toList, "legumes".toList, "snacks".toList, "supplements".toList,
    "others".toList]

def standard : Table where
  identifier := standardIdentifier
  entries := standardNames.map fun name => ⟨name, name⟩
  identifier_valid := by decide
  entries_ne_nil := by decide
  entries_valid := by decide

/-- The table used when nothing else is given is the one that its names make. -/
theorem ofNames_standard : ofNames standardIdentifier standardNames = .ok standard := by
  rfl

theorem key_valid (t : Table) {e : Entry} (h : e ∈ t.entries) : isIdentifier e.key = true := by
  have := t.entries_valid e h
  unfold Entry.fault? at this
  split at this
  · assumption
  · simp at this

theorem literal_valid (t : Table) {e : Entry} (h : e ∈ t.entries) :
    isQuotable e.literal = true := by
  have := t.entries_valid e h
  unfold Entry.fault? at this
  split at this
  · split at this
    · assumption
    · simp at this
  · simp at this

end Table

end Constify
