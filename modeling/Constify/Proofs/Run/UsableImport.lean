import Constify.Proofs.Import.Presence
import Constify.Proofs.Revision
import Constify.Proofs.Run.Exec
import Constify.Proofs.Substitution.Mention
import Constify.Proofs.Tree.Below

/-!
# A changed text has a usable import

* `Lifter.Accounts l text r` : what the parts of a revision `r` of `text` say about each other;
* `Lifter.accounts_revise` : a lifter whose statements name the object of its table makes such revisions;
* `identifier_of_loadLifter` : the lifters that settings give are of this kind, whatever their table;
* `accounts_of_loadLifter` : so their revisions are.
-/

namespace Constify

namespace Lifter

/-- The parts of a revision of `text` agree, and a changed text mentions the constant object and imports
it. -/
structure Accounts (l : Lifter) (text : Text) (r : Revision) : Prop where
  before : r.before = text
  changed_iff_hits : r.changed = true ↔ r.hits ≠ []
  changed_iff_ne : r.changed = true ↔ r.before ≠ r.after
  unchanged : r.changed = false → r.after = text ∧ r.importAdded = false
  mentioned : r.changed = true → StandsAlone l.importer.identifier r.after
  imported : r.changed = true → l.importer.Imports r.after
  /-- An import is added exactly where the text has none after the substitutions. -/
  importAdded_iff : r.importAdded = true ↔
    r.changed = true ∧ ¬ l.importer.Imports (l.table.lift text).content

variable {l : Lifter}

theorem accounts_revise (hl : l.importer.identifier = l.table.identifier) (place text : Text) :
    l.Accounts text (l.revise place text) := by
  by_cases h : (l.table.lift text).content = text
  · have hhits : (l.table.lift text).hits = [] := Table.hits_lift_eq_nil_iff.mpr h
    rw [revise, if_pos h, hhits]
    have hchanged : Revision.changed ⟨place, text, text, [], false⟩ = false := bne_self_eq_false text
    constructor
    case before => rfl
    case changed_iff_hits => simp [hchanged]
    case changed_iff_ne => simp [hchanged]
    case unchanged => exact fun _ => ⟨rfl, rfl⟩
    case mentioned => simp [hchanged]
    case imported => simp [hchanged]
    case importAdded_iff => simp [hchanged]
  · have hname : StandsAlone l.importer.identifier (l.table.lift text).content := by
      rw [hl]
      exact Table.standsAlone_lift h
    have hne : l.importer.ensure place (l.table.lift text).content ≠ text := fun heq =>
      lines_ensure_lift_ne h place (congrArg Text.lines heq)
    rw [revise, if_neg h]
    have hchanged : ∀ r : Revision, r.before = text →
        r.after = l.importer.ensure place (l.table.lift text).content → r.changed = true := by
      rintro r rfl hafter
      rw [Revision.changed, hafter, bne_iff_ne]
      exact hne
    constructor
    case before => rfl
    case changed_iff_hits =>
      exact iff_of_true (hchanged _ rfl rfl) fun hnil => h (Table.hits_lift_eq_nil_iff.mp hnil)
    case changed_iff_ne => exact iff_of_true (hchanged _ rfl rfl) hne.symm
    case unchanged => simp [hchanged]
    case mentioned => exact fun _ => Importer.standsAlone_ensure hname
    case imported => exact fun _ => Importer.imports_ensure hname
    case importAdded_iff =>
      rw [bne_iff_ne, Importer.ensure_ne_iff hname]
      exact (and_iff_right (hchanged _ rfl rfl)).symm

end Lifter

/-! ## Lifters that settings give -/

/-- The table that a module's text defines has the name that was looked for. -/
theorem identifier_of_tableOfText {name path text : Text} {table : Table}
    (h : tableOfText name path text = .ok table) : table.identifier = name := by
  unfold tableOfText Table.ofModule? at h
  split at h
  · next t hread =>
    cases h
    split at hread
    · cases hread
    · obtain ⟨t, hentries, ht⟩ := exists_of_map_eq_ok hread
      cases ht
      exact (Table.identifier_of_ofEntries hentries).1
  · cases h
  · cases h

namespace Tree

variable {t : Tree} {here : List Bytes} {settings : Settings} {base : Text} {l : Lifter}

/-- Statements and table name the object of the settings, be the table read from a file or listed. -/
theorem identifier_of_loadLifter
    (h : (t.exec (loadLifter (storage here) settings base).run).1 = .ok l) :
    l.importer = settings.importer ∧ l.table.identifier = settings.constants.identifier := by
  rw [exec_loadLifter] at h
  obtain ⟨table, htable, rfl⟩ := exists_of_map_eq_ok h
  refine ⟨rfl, ?_⟩
  split at htable
  · rw [exec_loadTable] at htable
    dsimp only at htable
    split at htable
    · exact identifier_of_tableOfText htable
    · cases htable
  · exact (Table.identifier_of_ofEntries (ofTableFault_eq_ok_iff.mp htable)).1

/-- **A changed text ends up with a usable import.** Whatever the table is read from, if the settings give
a lifter then the parts of each of its revisions agree, and a changed text mentions the constant object of
the settings and imports it. -/
theorem accounts_of_loadLifter
    (h : (t.exec (loadLifter (storage here) settings base).run).1 = .ok l) (place text : Text) :
    l.importer.identifier = settings.constants.identifier ∧ l.Accounts text (l.revise place text) := by
  obtain ⟨himporter, htable⟩ := identifier_of_loadLifter h
  have hname : l.importer.identifier = settings.constants.identifier := by
    rw [himporter]
    rfl
  exact ⟨hname, Lifter.accounts_revise (hname.trans htable.symm) place text⟩

def moduleText : Text := "const K: T = \x7b a: \"x y\" \x7d".toList

/-- The table that the text defines. -/
def moduleTable : Table where
  identifier := ['K']
  entries := [⟨['a'], ['x', ' ', 'y']⟩]
  identifier_valid := by decide
  entries_ne_nil := by decide
  entries_valid := by decide

theorem ofModule?_moduleText : Table.ofModule? ['K'] moduleText = .ok (some moduleTable) := by
  have hbody : ObjectLiteral.body? ['K'] moduleText = some " a: \"x y\" ".toList := by rfl
  have hpairs : ObjectLiteral.pairs " a: \"x y\" ".toList = moduleTable.entries := by decide +kernel
  rw [Table.ofModule?, hbody, Option.map_some, hpairs]
  rfl

def moduleTree : Tree := dir [("k".toList, file moduleText.encode)]

def moduleSettings : Settings :=
  { Settings.standard with constants := ⟨['K'], ['m'], some ['k'], none⟩ }

theorem exec_loadLifter_moduleTree :
    (moduleTree.exec (loadLifter (storage []) moduleSettings ['.']).run).1 =
      .ok ⟨moduleTable, moduleSettings.importer⟩ := by
  have hresolve : moduleTree.resolve [] (Path.join ['.'] ['k'] : Text) = .ok ["k".toList] := by
    rw [resolve_of_taken (by decide)]
    show resolveFrom moduleTree maxLinks [] [[PathUnit.dot], "k".toList] = _
    rw [moduleTree, resolveFrom_cons_of_here rfl (Or.inr rfl),
      resolveFrom_cons_of_child rfl (by decide) rfl (by simp), resolveFrom_nil]
    rfl
  have hread : moduleTree.readText [] (Path.join ['.'] ['k'] : Text) = .ok moduleText :=
    readText_eq_ok_iff.mpr ⟨_, _, hresolve, rfl, Text.decode?_encode _⟩
  rw [exec_loadLifter]
  show (moduleTree.exec (loadTable (storage []) ['K'] (Path.join ['.'] ['k'])).run).1.map _ = _
  rw [exec_loadTable, hread]
  dsimp only
  rw [tableOfText, ofModule?_moduleText]
  rfl

/-- In a text with a literal of the table. -/
theorem accounts_of_loadLifter_moduleTree :
    (moduleTree.exec (loadLifter (storage []) moduleSettings ['.']).run).1 =
        .ok ⟨moduleTable, moduleSettings.importer⟩ ∧
      moduleSettings.importer.identifier = ['K'] ∧
      (moduleTable.lift ['(', '"', 'x', ' ', 'y', '"', ')']).hits ≠ [] ∧
      (⟨moduleTable, moduleSettings.importer⟩ : Lifter).Accounts ['(', '"', 'x', ' ', 'y', '"', ')']
        ((⟨moduleTable, moduleSettings.importer⟩ : Lifter).revise ['f']
          ['(', '"', 'x', ' ', 'y', '"', ')']) :=
  ⟨exec_loadLifter_moduleTree, rfl, by decide,
    (accounts_of_loadLifter exec_loadLifter_moduleTree ['f'] ['(', '"', 'x', ' ', 'y', '"', ')']).2⟩

end Tree

end Constify
