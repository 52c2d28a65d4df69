import Constify.Proofs.Run.Exec
import Constify.Proofs.Table.Definition

/-!
# Tables that cannot be read

* `ObjectLiteral.Plain.fault?_eq` : of the checks of an entry, a pair that was read can only fail the one
  that its value is not empty;
* `ObjectLiteral.HasPairs.plain`, `ObjectLiteral.Defines.plain` : the pairs of a text;
* `Table.ofEntries_eq_error_iff`, `Table.ofModule?_eq_error_iff` : the faults of a list of entries, and of
  the text of a module;
* `NoTable` : why no table is loaded from a file;
* `Table.ofModule?_fails_iff` : when reading a table fails, from a text or a file.
-/

namespace Constify

namespace ObjectLiteral

variable {name source t : Text} {e : Entry} {es : List Entry}

/-! ## The checks of a pair -/

theorem Plain.fault?_eq (h : Plain e) : e.fault? = if e.literal = [] then some (.literal []) else none := by
  have hchars : (e.literal.all fun c => c != '"' && c != '\\' && c != '\r' && c != '\n') = true := by
    rw [List.all_eq_true]
    intro c hc
    have := h.literal c hc
    simp only [isValueChar, isQuote, Bool.and_eq_true, Bool.not_eq_true', Bool.or_eq_false_iff, bne,
      beq_eq_false_iff_ne] at this ⊢
    tauto
  rw [Entry.fault?, if_pos h.key, isQuotable, hchars, Bool.and_true]
  cases hliteral : e.literal <;> simp

theorem HasPairs.plain (h : HasPairs t es) : ∀ e ∈ es, Plain e := by
  induction h with
  | nil => simp
  | cons _ hpair _ ih =>
    obtain ⟨p, -, rfl, -⟩ := hpair
    exact List.forall_mem_cons.mpr ⟨⟨p.key_valid, p.literal_plain⟩, ih⟩

theorem Defines.plain (h : Defines name source es) : ∀ e ∈ es, Plain e := by
  obtain ⟨-, _, _, -, -, hpairs⟩ := h
  exact hpairs.plain

theorem Defines.unique {es' : List Entry} (h : Defines name source es) (h' : Defines name source es') :
    es = es' := by
  obtain ⟨-, body, hbody, rfl⟩ := defines_iff.mp h
  obtain ⟨-, body', hbody', rfl⟩ := defines_iff.mp h'
  rw [Option.some.inj (hbody.symm.trans hbody')]

end ObjectLiteral

namespace Table

open ObjectLiteral

variable {name source : Text} {es : List Entry} {fault : TableFault}

/-! ## The faults -/

theorem ofEntries_eq_error_iff :
    ofEntries name es = .error fault ↔
      isIdentifier name = false ∧ fault = .identifier name ∨
        isIdentifier name = true ∧
          (es = [] ∧ fault = .noEntries ∨ es ≠ [] ∧ es.findSome? Entry.fault? = some fault) := by
  unfold ofEntries
  split
  · next hname =>
    split
    · next hnil => simp [hname, hnil, eq_comm]
    · next hne =>
      split
      · next other hfault => simp [hname, hne, hfault]
      · next hnone => simp [hname, hne, hnone]
  · next hname => simp [hname, eq_comm]

/-- Only an empty value is a fault of a pair that was read. -/
theorem findSome?_fault?_eq_some_iff (h : ∀ e ∈ es, Plain e) :
    es.findSome? Entry.fault? = some fault ↔ fault = .literal [] ∧ ∃ e ∈ es, e.literal = [] := by
  have hfault : ∀ e ∈ es, ∀ other, e.fault? = some other ↔ other = .literal [] ∧ e.literal = [] := by
    intro e he other
    rw [(h e he).fault?_eq]
    split
    · next hnil => simp [hnil, eq_comm]
    · next hne => simp [hne]
  constructor
  · intro hsome
    obtain ⟨e, he, heq⟩ := List.exists_of_findSome?_eq_some hsome
    obtain ⟨rfl, hnil⟩ := (hfault e he fault).mp heq
    exact ⟨rfl, e, he, hnil⟩
  · rintro ⟨rfl, e, he, hnil⟩
    cases hfind : es.findSome? Entry.fault? with
    | none =>
      have := List.findSome?_eq_none_iff.mp hfind e he
      rw [(hfault e he _).mpr ⟨rfl, hnil⟩] at this
      cases this
    | some other =>
      obtain ⟨e', he', heq⟩ := List.exists_of_findSome?_eq_some hfind
      rw [((hfault e' he' other).mp heq).1]

theorem ofModule?_of_defines (h : Defines name source es) :
    ofModule? name source = (ofEntries name es).map some := by
  obtain ⟨hne, body, hbody, rfl⟩ := defines_iff.mp h
  rw [ofModule?, hbody, Option.map_some, Option.getD_some]
  split
  · next hnil => exact absurd hnil hne
  · rfl

theorem ofModule?_of_not_defines (h : ∀ es, ¬ Defines name source es) : ofModule? name source = .ok none := by
  rw [ofModule?]
  cases hbody : body? name source with
  | none => rfl
  | some body =>
    rw [Option.map_some, Option.getD_some]
    split
    · rfl
    · next hne => exact absurd (defines_iff.mpr ⟨hne, body, hbody, rfl⟩) (h (pairs body))

theorem ofModule?_eq_ok_none_iff : ofModule? name source = .ok none ↔ ∀ es, ¬ Defines name source es := by
  refine ⟨fun hnone es hdefines => ?_, ofModule?_of_not_defines⟩
  rw [ofModule?_of_defines hdefines] at hnone
  obtain ⟨t, -, ht⟩ := exists_of_map_eq_ok hnone
  cases ht

theorem ofModule?_eq_ok_some_iff {t : Table} :
    ofModule? name source = .ok (some t) ↔ Defines name source t.entries ∧ t.identifier = name := by
  constructor
  · intro hsome
    by_cases hdefines : ∃ es, Defines name source es
    · obtain ⟨es, hes⟩ := hdefines
      rw [ofModule?_of_defines hes] at hsome
      obtain ⟨t', ht', heq⟩ := exists_of_map_eq_ok hsome
      cases heq
      obtain ⟨hname, hentries⟩ := identifier_of_ofEntries ht'
      exact ⟨hentries.symm ▸ hes, hname⟩
    · rw [ofModule?_of_not_defines fun es hes => hdefines ⟨es, hes⟩] at hsome
      cases hsome
  · rintro ⟨hdefines, rfl⟩
    rw [ofModule?_of_defines hdefines, t.ofEntries_entries]
    rfl

/-- A text fails for the pairs that it holds: the name of the object is checked first, then their values. -/
theorem ofModule?_eq_error_iff :
    ofModule? name source = .error fault ↔
      ∃ es, Defines name source es ∧
        (isIdentifier name = false ∧ fault = .identifier name ∨
          isIdentifier name = true ∧ fault = .literal [] ∧ ∃ e ∈ es, e.literal = []) := by
  have herror : ∀ es, Defines name source es →
      (ofModule? name source = .error fault ↔
        isIdentifier name = false ∧ fault = .identifier name ∨
          isIdentifier name = true ∧ fault = .literal [] ∧ ∃ e ∈ es, e.literal = []) := by
    intro es hes
    have hmap : ofModule? name source = .error fault ↔ ofEntries name es = .error fault := by
      rw [ofModule?_of_defines hes]
      cases ofEntries name es <;> simp [Except.map]
    rw [hmap, ofEntries_eq_error_iff, findSome?_fault?_eq_some_iff hes.plain]
    simp [hes.1]
  constructor
  · intro h
    by_cases hdefines : ∃ es, Defines name source es
    · obtain ⟨es, hes⟩ := hdefines
      exact ⟨es, hes, (herror es hes).mp h⟩
    · rw [ofModule?_of_not_defines fun es hes => hdefines ⟨es, hes⟩] at h
      cases h
  · rintro ⟨es, hes, hfault⟩
    exact (herror es hes).mpr hfault

end Table

/-! ## Loading from a file -/

/-- Why no table is loaded from the file at the path: the file cannot be read, its text defines no such
object, or the pairs of the object make no table. -/
inductive NoTable (t : Tree) (here : List Text) (name path : Text) : Text → Prop
  | unreadable {fault : ReadFault} : t.readText here path = .error fault → NoTable t here name path fault.message
  | undefined {text : Text} : t.readText here path = .ok text →
      (∀ es, ¬ ObjectLiteral.Defines name text es) → NoTable t here name path (noObject name)
  | badName {text : Text} {es : List Entry} : t.readText here path = .ok text →
      ObjectLiteral.Defines name text es → isIdentifier name = false →
      NoTable t here name path (TableFault.identifier name).message
  | emptyValue {text : Text} {es : List Entry} : t.readText here path = .ok text →
      ObjectLiteral.Defines name text es → isIdentifier name = true → (∃ e ∈ es, e.literal = []) →
      NoTable t here name path (TableFault.literal []).message

theorem tableOfText_eq_error_iff {name path text : Text} {failure : Failure} :
    tableOfText name path text = .error failure ↔
      (∀ es, ¬ ObjectLiteral.Defines name text es) ∧ failure = .tableSource path (noObject name) ∨
        ∃ fault, Table.ofModule? name text = .error fault ∧ failure = .tableSource path fault.message := by
  rw [← Table.ofModule?_eq_ok_none_iff]
  unfold tableOfText
  cases Table.ofModule? name text with
  | error fault => simp [eq_comm]
  | ok table? => cases table? <;> simp [eq_comm]

theorem Tree.exec_loadTable_eq_error_iff {t : Tree} {here : List Text} {name path : Text} {failure : Failure} :
    (t.exec (loadTable (storage here) name path).run).1 = .error failure ↔
      ∃ reason, NoTable t here name path reason ∧ failure = .tableSource path reason := by
  rw [exec_loadTable]
  cases hread : t.readText here path with
  | error fault =>
    constructor
    · intro h
      exact ⟨fault.message, .unreadable hread, (Except.error.inj h).symm⟩
    · rintro ⟨reason, hreason, rfl⟩
      cases hreason with
      | unreadable hfault =>
        cases hread.symm.trans hfault
        rfl
      | undefined htext | badName htext | emptyValue htext => cases hread.symm.trans htext
  | ok text =>
    dsimp only
    rw [tableOfText_eq_error_iff]
    constructor
    · rintro (⟨hnone, rfl⟩ | ⟨fault, hfault, rfl⟩)
      · exact ⟨_, .undefined hread hnone, rfl⟩
      · obtain ⟨es, hes, ⟨hname, rfl⟩ | ⟨hname, rfl, hempty⟩⟩ := Table.ofModule?_eq_error_iff.mp hfault
        · exact ⟨_, .badName hread hes hname, rfl⟩
        · exact ⟨_, .emptyValue hread hes hname hempty, rfl⟩
    · rintro ⟨reason, hreason, rfl⟩
      cases hreason with
      | unreadable hfault => cases hread.symm.trans hfault
      | undefined htext hnone =>
        cases hread.symm.trans htext
        exact Or.inl ⟨hnone, rfl⟩
      | badName htext hes hname =>
        cases hread.symm.trans htext
        exact Or.inr ⟨_, Table.ofModule?_eq_error_iff.mpr ⟨_, hes, Or.inl ⟨hname, rfl⟩⟩, rfl⟩
      | emptyValue htext hes hname hempty =>
        cases hread.symm.trans htext
        exact Or.inr ⟨_, Table.ofModule?_eq_error_iff.mpr ⟨_, hes, Or.inr ⟨hname, rfl, hempty⟩⟩, rfl⟩

namespace Table

open ObjectLiteral

/-- **When reading a table fails.** The text of a module fails exactly if it defines the object with pairs
and the name of the object is no identifier or a value is empty. A table that is read has the pairs as its
entries, passes the checks of a table, and has no quote of either kind, backslash or line break in a literal.
So the only failure of loading a table from a file is the one that names the file, for one of four
reasons. -/
theorem ofModule?_fails_iff (name : Text) :
    (∀ source, (∃ fault, ofModule? name source = .error fault) ↔
        ∃ es, Defines name source es ∧ (isIdentifier name = false ∨ ∃ e ∈ es, e.literal = [])) ∧
      (∀ source t, ofModule? name source = .ok (some t) →
        Defines name source t.entries ∧ ofEntries name t.entries = .ok t ∧ isIdentifier name = true ∧
          (∀ e ∈ t.entries, isIdentifier e.key = true ∧ isQuotable e.literal = true) ∧
          ∀ e ∈ t.entries, ∀ c ∈ ['"', '\'', '\\', '\r', '\n'], c ∉ e.literal) ∧
      ∀ (tree : Tree) (here : List Text) (path : Text) (failure : Failure),
        (tree.exec (loadTable (Tree.storage here) name path).run).1 = .error failure ↔
          ∃ reason, NoTable tree here name path reason ∧ failure = .tableSource path reason := by
  refine ⟨fun source => ?_, fun source t ht => ?_, fun tree here path failure => Tree.exec_loadTable_eq_error_iff⟩
  · constructor
    · rintro ⟨fault, hfault⟩
      obtain ⟨es, hes, ⟨hname, -⟩ | ⟨-, -, hempty⟩⟩ := ofModule?_eq_error_iff.mp hfault
      · exact ⟨es, hes, Or.inl hname⟩
      · exact ⟨es, hes, Or.inr hempty⟩
    · rintro ⟨es, hes, hfault⟩
      cases hname : isIdentifier name with
      | false => exact ⟨_, ofModule?_eq_error_iff.mpr ⟨es, hes, Or.inl ⟨hname, rfl⟩⟩⟩
      | true =>
        have hempty := hfault.resolve_left (by simp [hname])
        exact ⟨_, ofModule?_eq_error_iff.mpr ⟨es, hes, Or.inr ⟨hname, rfl, hempty⟩⟩⟩
  · obtain ⟨hes, rfl⟩ := ofModule?_eq_ok_some_iff.mp ht
    refine ⟨hes, t.ofEntries_entries, t.identifier_valid, fun e he => ⟨t.key_valid he, t.literal_valid he⟩,
      fun e he c hc hmem => ?_⟩
    have hstop : ∀ c ∈ ['"', '\'', '\\', '\r', '\n'], isValueChar c = false := by decide
    have hchar := (hes.plain e he).literal c hmem
    rw [hstop c hc] at hchar
    cases hchar

/-- An object whose first value is empty. -/
def blankSource : Text := "const K = \x7b a: \"\", b: 'x' \x7d;".toList

theorem ofModule?_blankSource : ofModule? ['K'] blankSource = .error (.literal []) := by
  have hbody : body? ['K'] blankSource = some " a: \"\", b: 'x' ".toList := by decide
  have hpairs : pairs " a: \"\", b: 'x' ".toList = [⟨['a'], []⟩, ⟨['b'], ['x']⟩] := by decide +kernel
  rw [ofModule?, hbody, Option.map_some, Option.getD_some, hpairs]
  rfl

/-- For an object with an empty value, and for one that makes a table. -/
theorem ofModule?_fails_iff_flavorSource :
    (∃ es, Defines ['K'] blankSource es ∧ (isIdentifier ['K'] = false ∨ ∃ e ∈ es, e.literal = [])) ∧
      ofModule? "FLAVORS".toList flavorSource = .ok (some flavorTable) ∧
      Defines "FLAVORS".toList flavorSource flavorTable.entries ∧
      ofEntries "FLAVORS".toList flavorTable.entries = .ok flavorTable := by
  obtain ⟨hdefines, hchecks, -⟩ := (ofModule?_fails_iff "FLAVORS".toList).2.1 _ _ ofModule?_flavorSource
  exact ⟨((ofModule?_fails_iff ['K']).1 blankSource).mp ⟨_, ofModule?_blankSource⟩, ofModule?_flavorSource,
    hdefines, hchecks⟩

end Table

end Constify
