import Constify.Proofs.Import.Reading
import Constify.Proofs.Import.Scan
import Constify.Proofs.Import.Syntax

/-!
# Printing declarations and reading them back

* `ListStyle` : the blanks of a printed list, on one line or over several;
* `Import.text` : a declaration as it is printed;
* `Import.Standard` : what is left out, names and modules that the text does not tell apart;
* `Import.ofText_text` : a printed declaration is read back;
* `Block`, `Block.declared` : lines and printed declarations, and the declarations with their lines;
* `declarations_text` : reading a text of blocks gives its declarations.
-/

namespace Constify

open Declaration (ofText clause? quotedModule? braceBalance)

/-! ## The printed text -/

/-- The blanks of a printed list: behind its brace, behind each comma and at its end. -/
structure ListStyle where
  lead : Text
  gap : Text
  tail : Text
  lead_blank : Blanks lead
  gap_blank : Blanks gap
  tail_blank : Blanks tail

/-- A list on one line. -/
def ListStyle.inline : ListStyle := ⟨[' '], [' '], [' '], blanks_space, blanks_space, blanks_space⟩

/-- A list with each entry on a line of its own. -/
def ListStyle.broken (indent : Text) (h : Blanks indent) : ListStyle where
  lead := '\n' :: indent
  gap := '\n' :: indent
  tail := ['\n']
  lead_blank := blanks_cons.mpr ⟨rfl, h⟩
  gap_blank := blanks_cons.mpr ⟨rfl, h⟩
  tail_blank := by decide

def ListedName.text (n : ListedName) : Text :=
  (if n.isType then "type ".toList else []) ++
    (n.name.1 ++ (n.alias?.map fun a => " as ".toList ++ a.1).getD [])

namespace Names

variable (style : ListStyle)

/-- What stands between the braces. -/
def listText (items : List ListedName) (endsWithComma : Bool) : Text :=
  style.lead ++ ((',' :: style.gap).intercalate (items.map ListedName.text) ++
    ((if endsWithComma then [','] else []) ++ style.tail))

def defaultText (default? : Option Ident) : Text := (default?.map fun d => d.1 ++ [',', ' ']).getD []

def text : Names → Text
  | one name => name.1
  | all default? name => defaultText default? ++ ("* as ".toList ++ name.1)
  | listed default? items endsWithComma =>
    defaultText default? ++ '{' :: (listText style items endsWithComma ++ ['}'])

/-- The default binding, if there is one. -/
def default? : Names → Option Ident
  | one name => some name
  | all default? _ => default?
  | listed default? _ _ => default?

def items : Names → List ListedName
  | listed _ items _ => items
  | _ => []

end Names

namespace Import

/-- The module and perhaps a semicolon. -/
def sourceText (d : Import) (semicolon : Bool) : Text := d.source.text ++ if semicolon then [';'] else []

/-- A declaration as it is printed. -/
def text (style : ListStyle) (semicolon : Bool) (d : Import) : Text :=
  match d.names? with
  | none => "import ".toList ++ d.sourceText semicolon
  | some (isType, names) =>
    (if isType then "import type ".toList else "import ".toList) ++
      (names.text style ++ (" from ".toList ++ d.sourceText semicolon))

/-- The module holds no quote and no brace, and neither the default binding nor a name with an alias is the
word `type`. -/
structure Standard (d : Import) : Prop where
  module_unmarked : Unmarked d.source.module
  default_ne : ∀ n ∈ d.names?, ∀ name ∈ n.2.default?, name.1 ≠ "type".toList
  items_ne : ∀ n ∈ d.names?, ∀ item ∈ n.2.items, item.alias?.isSome = true → item.name.1 ≠ "type".toList

/-- The declaration that is read. -/
def declared (d : Import) (first last : Nat) : Declaration := ⟨first, last, d.bound, some d.source.module⟩

end Import

/-! ## Reading the names -/

/-- A printed entry binds its name. -/
theorem ListedName.entry_text {n : ListedName} (h : n.alias?.isSome = true → n.name.1 ≠ "type".toList) :
    Clause.Entry n.bound n.text := by
  have hspace : ∀ {t : Text}, isIdentifier t = true → ' ' ∉ t := fun ht hmem =>
    absurd (isIdentChar_of_mem ht hmem) (by decide)
  obtain ⟨isType, name, alias?⟩ := n
  have hspec : Clause.Spec (alias?.getD name).1
      (name.1 ++ (alias?.map fun a => " as ".toList ++ a.1).getD []) := by
    cases alias? with
    | none =>
      show Clause.Spec name.1 (name.1 ++ [])
      rw [List.append_nil]
      exact .plain
    | some a =>
      show Clause.Spec a.1 (name.1 ++ ([] ++ (" as ".toList ++ ([] ++ a.1))))
      exact .renamed name.2 blanks_nil blanks_nil
  cases isType with
  | true =>
    show Clause.Entry (alias?.getD name).1
      ("type ".toList ++ ([] ++ (name.1 ++ (alias?.map fun a => " as ".toList ++ a.1).getD [])))
    exact .typed blanks_nil hspec
  | false =>
    refine .plain hspec ?_
    cases alias? with
    | none =>
      show ¬ "type ".toList <+: name.1 ++ []
      rw [List.append_nil]
      rintro ⟨r, hr⟩
      exact hspace name.2 (hr ▸ by simp)
    | some a =>
      show ¬ "type ".toList <+: name.1 ++ (" as ".toList ++ a.1)
      exact Clause.not_type_prefix name.2 (h rfl) (by rintro c ⟨⟩; rfl)

namespace Names

open Clause (parts outerBinding? namedBinding?)

variable (style : ListStyle) (endsWithComma : Bool) {items : List ListedName}

/-! ### The list -/

theorem unmarked_intercalate {s : Text} (hs : Unmarked s) {ts : List Text} (hts : ∀ t ∈ ts, Unmarked t) :
    Unmarked (s.intercalate ts) := by
  induction ts with
  | nil => exact unmarked_nil
  | cons t ts ih =>
    cases ts with
    | nil => simpa using hts t (by simp)
    | cons t' ts =>
      rw [List.intercalate_cons_cons, unmarked_append, unmarked_append]
      exact ⟨⟨hts t (by simp), hs⟩, ih fun u hu => hts u (List.mem_cons_of_mem t hu)⟩

section

variable (hitems : ∀ item ∈ items, item.alias?.isSome = true → item.name.1 ≠ "type".toList)

include hitems

theorem unmarked_listText : Unmarked (listText style items endsWithComma) := by
  have hgap : Unmarked (',' :: style.gap) := by
    rw [← List.singleton_append, unmarked_append]
    exact ⟨by decide, style.gap_blank.unmarked⟩
  have hcomma : Unmarked (if endsWithComma then [','] else []) := by
    cases endsWithComma <;> decide
  rw [listText, unmarked_append, unmarked_append, unmarked_append]
  refine ⟨style.lead_blank.unmarked, unmarked_intercalate hgap fun t ht => ?_, hcomma,
    style.tail_blank.unmarked⟩
  obtain ⟨item, hitem, rfl⟩ := List.mem_map.mp ht
  have hbound : isIdentifier item.bound = true := (item.alias?.getD item.name).2
  exact unmarked_of_forall fun _ hc =>
    (ListedName.entry_text (hitems item hitem)).isIdentChar_or_isBlank hbound hc

theorem parts_listText : parts (listText style items endsWithComma) = items.map ListedName.text := by
  refine Clause.parts_list style.gap_blank ?_ (fun t ht => ?_) style.lead_blank
  · cases endsWithComma with
    | false => exact Or.inl style.tail_blank
    | true => exact Or.inr ⟨style.tail, rfl, style.tail_blank⟩
  · obtain ⟨item, hitem, rfl⟩ := List.mem_map.mp ht
    have hbound : isIdentifier item.bound = true := (item.alias?.getD item.name).2
    have hentry := ListedName.entry_text (hitems item hitem)
    exact ⟨hentry.trimmed hbound, hentry.ne_nil hbound, fun hcomma =>
      absurd (hentry.isIdentChar_or_isBlank hbound hcomma) (by decide)⟩

theorem namedBindings_listText :
    (parts (listText style items endsWithComma)).filterMap namedBinding? = items.map ListedName.bound := by
  rw [parts_listText style endsWithComma hitems, List.filterMap_map]
  have hbinding : ∀ item ∈ items, (namedBinding? ∘ ListedName.text) item = some item.bound :=
    fun item hitem => (ListedName.entry_text (hitems item hitem)).namedBinding? (item.alias?.getD item.name).2
  rw [List.filterMap_congr hbinding, List.filterMap_eq_map']

end

/-! ### The default name -/

theorem parts_defaultText (default? : Option Ident) (t : Text) :
    parts (defaultText default? ++ t) = (default?.map Subtype.val).toList ++ parts t := by
  cases default? with
  | none => rfl
  | some d =>
    show parts (d.1 ++ [',', ' '] ++ t) = d.1 :: parts t
    rw [List.append_assoc]
    show parts (d.1 ++ ',' :: (' ' :: t)) = d.1 :: parts t
    rw [Clause.parts_append_cons, Clause.parts_of_isIdentifier d.2, Clause.parts_cons_of_isBlank rfl,
      List.singleton_append]

theorem outerBindings_default (default? : Option Ident) :
    (default?.map Subtype.val).toList.filterMap outerBinding? = (default?.map Subtype.val).toList := by
  cases default? with
  | none => rfl
  | some d => exact congrArg Option.toList (Clause.outerBinding?_of_isIdentifier d.2)

theorem parts_all {name : Text} (h : isIdentifier name = true) :
    parts ("* as ".toList ++ name) = ["* as ".toList ++ name] := by
  have hne : name ≠ [] := fun hnil => absurd h (by rw [hnil]; decide)
  have hcomma : ',' ∉ "* as ".toList ++ name := by
    rw [List.mem_append, not_or]
    exact ⟨by decide, fun hmem => absurd (isIdentChar_of_mem h hmem) (by decide)⟩
  have htrimmed : Trimmed ("* as ".toList ++ name) :=
    trimmed_append (by decide) (by decide) (trimmed_of_isIdentifier h).last hne
  have hparts := Clause.parts_of_trimmed blanks_nil blanks_nil htrimmed (by simp) hcomma
  rwa [List.nil_append, List.append_nil] at hparts

theorem unmarked_defaultText (default? : Option Ident) : Unmarked (defaultText default?) := by
  cases default? with
  | none => exact unmarked_nil
  | some d => exact unmarked_append.mpr ⟨unmarked_of_isIdentifier d.2, by decide⟩

/-! ### The clause -/

/-- The names of a printed clause are read back. -/
theorem bindings_text {names : Names}
    (hitems : ∀ item ∈ names.items, item.alias?.isSome = true → item.name.1 ≠ "type".toList) :
    Clause.bindings (names.text style) = names.bound := by
  cases names with
  | one name =>
    rw [text, Clause.bindings, Clause.braced?_eq_none (unmarked_of_isIdentifier name.2).not_open]
    dsimp only
    rw [Clause.parts_of_isIdentifier name.2, List.filterMap_cons,
      Clause.outerBinding?_of_isIdentifier name.2]
    rfl
  | all default? name =>
    have hunmarked : Unmarked (defaultText default? ++ ("* as ".toList ++ name.1)) := by
      rw [unmarked_append, unmarked_append]
      exact ⟨unmarked_defaultText default?, by decide, unmarked_of_isIdentifier name.2⟩
    have hname := parts_all name.2
    rw [text, Clause.bindings, Clause.braced?_eq_none hunmarked.not_open]
    dsimp only
    rw [parts_defaultText, List.filterMap_append, outerBindings_default, hname, List.filterMap_cons,
      Clause.outerBinding?_all name.2]
    rfl
  | listed default? items endsWithComma =>
    have hbraced : Clause.braced? (defaultText default? ++ '{' ::
        (listText style items endsWithComma ++ ['}'])) =
          some (defaultText default?, listText style items endsWithComma, []) :=
      Clause.braced?_append (unmarked_defaultText default?).not_open (by simp)
    have hlist : (parts (listText style items endsWithComma)).filterMap namedBinding? =
        items.map ListedName.bound :=
      namedBindings_listText style endsWithComma hitems
    have hblank : parts [' '] = [] := Clause.parts_of_blanks (by decide)
    rw [text, Clause.bindings, hbraced]
    dsimp only
    rw [parts_defaultText, hblank, List.append_nil, outerBindings_default, hlist, bound]

theorem head_defaultText (default? : Option Ident) {t : Text} (ht : ∀ c ∈ t.head?, isBlank c = false) :
    ∀ c ∈ (defaultText default? ++ t).head?, isBlank c = false := by
  cases default? with
  | none => exact ht
  | some d =>
    obtain ⟨c, cs, hd, hc, -⟩ := exists_cons_of_isIdentifier d.2
    show ∀ c ∈ (d.1 ++ [',', ' '] ++ t).head?, isBlank c = false
    rw [hd]
    simpa using isBlank_of_isIdentChar (isIdentChar_of_isIdentStart hc)

theorem head_text (names : Names) (t : Text) : ∀ c ∈ (names.text style ++ t).head?, isBlank c = false := by
  cases names with
  | one name =>
    obtain ⟨c, cs, hname, hc, -⟩ := exists_cons_of_isIdentifier name.2
    rw [text, hname]
    simpa using isBlank_of_isIdentChar (isIdentChar_of_isIdentStart hc)
  | all default? name =>
    rw [text, List.append_assoc]
    exact head_defaultText default? (by rintro c ⟨⟩; rfl)
  | listed default? items endsWithComma =>
    rw [text, List.append_assoc]
    exact head_defaultText default? (by rintro c ⟨⟩; rfl)

theorem last_text (names : Names) : ∀ c ∈ (names.text style).getLast?, isBlank c = false := by
  cases names with
  | one name => exact (trimmed_of_isIdentifier name.2).last
  | all default? name =>
    have hne : name.1 ≠ [] := fun hnil => absurd name.2 (by rw [hnil]; decide)
    rw [text, ← List.append_assoc, List.getLast?_append_of_ne_nil _ hne]
    exact (trimmed_of_isIdentifier name.2).last
  | listed default? items endsWithComma =>
    rw [text, ← List.cons_append, ← List.append_assoc, List.getLast?_concat]
    rintro c ⟨⟩
    rfl

/-- No printed clause is taken for the word `type` and what follows it. -/
theorem isBlank_head_of_type_text {names : Names}
    (hdefault : ∀ name ∈ names.default?, name.1 ≠ "type".toList) {t r : Text}
    (ht : ∀ c ∈ t.head?, isIdentChar c = false) (h : names.text style ++ t = "type".toList ++ r) :
    ∀ c ∈ r.head?, isBlank c = false := by
  have hfront : ∀ (default? : Option Ident) (c : Char) (u : Text), c ≠ 't' →
      (∀ name ∈ default?, name.1 ≠ "type".toList) → defaultText default? ++ c :: u = "type".toList ++ r →
      ∀ c ∈ r.head?, isBlank c = false := by
    intro default? c u hc hne heq
    cases default? with
    | none => exact absurd (List.cons.inj heq).1 hc
    | some d =>
      have hcomma : d.1 ++ (',' :: ' ' :: c :: u) = "type".toList ++ r := by
        rw [← heq]
        show _ = d.1 ++ [',', ' '] ++ c :: u
        simp
      exact Clause.isBlank_head_of_type d.2 (hne d rfl) (by rintro x ⟨⟩; rfl) hcomma
  cases names with
  | one name => exact Clause.isBlank_head_of_type name.2 (hdefault name rfl) ht h
  | all default? name =>
    rw [text, List.append_assoc] at h
    exact hfront default? '*' _ (by decide) hdefault h
  | listed default? items endsWithComma =>
    rw [text, List.append_assoc] at h
    exact hfront default? '{' _ (by decide) hdefault h

/-- No quote stands in a printed clause. -/
theorem isQuote_of_mem_text {names : Names}
    (hitems : ∀ item ∈ names.items, item.alias?.isSome = true → item.name.1 ≠ "type".toList) :
    ∀ c ∈ names.text style, isQuote c = false := by
  intro c hc
  cases names with
  | one name => exact (unmarked_of_isIdentifier name.2 c hc).1
  | all default? name =>
    have hall : Unmarked "* as ".toList := by decide
    rw [text, List.mem_append, List.mem_append] at hc
    rcases hc with hc | hc | hc
    · exact (unmarked_defaultText default? c hc).1
    · exact (hall c hc).1
    · exact (unmarked_of_isIdentifier name.2 c hc).1
  | listed default? items endsWithComma =>
    have hlist : Unmarked (listText style items endsWithComma) := unmarked_listText style endsWithComma hitems
    simp only [text, List.mem_append, List.mem_cons, List.not_mem_nil, or_false] at hc
    rcases hc with hc | rfl | hc | rfl
    · exact (unmarked_defaultText default? c hc).1
    · rfl
    · exact (hlist c hc).1
    · rfl

/-- The clause of printed names, whatever follows the module. -/
theorem clause?_text {names : Names}
    (hitems : ∀ item ∈ names.items, item.alias?.isSome = true → item.name.1 ≠ "type".toList)
    (hdefault : ∀ name ∈ names.default?, name.1 ≠ "type".toList) (isType : Bool) {s m : Text}
    (hs : quotedModule? s = some m) :
    clause? ((if isType then "import type ".toList else "import ".toList) ++
      (names.text style ++ (" from ".toList ++ s))) = some (names.text style, m) := by
  have hsplit : Declaration.splitFrom? (some ' ')
      ((names.text style ++ [' ']) ++ ("from".toList ++ ([' '] ++ s))) =
        some (names.text style ++ [' '], m) := by
    refine Declaration.splitFrom?_append (by simp) (fun c hc => ?_) ?_ (by decide) hs
    · rcases List.mem_append.mp hc with hc | hc
      · exact names.isQuote_of_mem_text style hitems c hc
      · exact isQuote_of_isBlank (blanks_space c hc)
    · rw [List.getLast?_concat]
      rintro c ⟨⟩
      exact isWord_of_isBlank rfl
  have htrim : Text.trimEnd (names.text style ++ [' ']) = names.text style := by
    rw [Text.trimEnd_append (by decide), Text.trimEnd_of_last (names.last_text style)]
  have hassoc : (names.text style ++ [' ']) ++ ("from".toList ++ ([' '] ++ s)) =
      names.text style ++ (" from ".toList ++ s) := by
    rw [List.append_assoc]
    rfl
  rw [hassoc] at hsplit
  have hhead := names.head_text style (" from ".toList ++ s)
  cases isType with
  | true =>
    rw [if_pos rfl, Declaration.clause?_import_type hhead, hsplit, Option.map_some, htrim]
  | false =>
    have htype : ∀ r, names.text style ++ (" from ".toList ++ s) = "type".toList ++ r →
        ∀ c ∈ r.head?, isBlank c = false := fun r hr =>
      names.isBlank_head_of_type_text style hdefault (by rintro c ⟨⟩; rfl) hr
    rw [if_neg (by decide), Declaration.clause?_import hhead htype, hsplit, Option.map_some, htrim]

end Names

/-! ## Reading a declaration -/

namespace Import

variable {d : Import} (h : d.Standard) (style : ListStyle) (semicolon : Bool)

include h

theorem quotedModule?_sourceText : quotedModule? (d.sourceText semicolon) = some d.source.module := by
  have hq : isQuote d.source.quote = true := by
    rcases d.source.quote_valid with hq | hq <;> rw [hq] <;> rfl
  refine Declaration.quotedModule?_eq_some_iff.mpr
    ⟨d.source.quote, d.source.quote, if semicolon then [';'] else [], ?_, hq, hq, ?_⟩
  · simp [sourceText, Quoted.text]
  · exact fun c hc => (h.module_unmarked c hc).1

theorem countP_isQuote_sourceText : (d.sourceText semicolon).countP isQuote ≤ 2 := by
  have hmodule : d.source.module.countP isQuote = 0 :=
    List.countP_eq_zero.mpr fun c hc => by simp [(h.module_unmarked c hc).1]
  have hend : (if semicolon then [';'] else []).countP isQuote = 0 := by
    cases semicolon <;> decide
  rw [sourceText, Quoted.text, List.cons_append, List.append_assoc, List.countP_cons, List.countP_append,
    List.countP_append, hmodule, hend, List.countP_singleton]
  split <;> omega

theorem clause?_text {isType : Bool} {names : Names} (hnames : d.names? = some (isType, names)) :
    clause? (d.text style semicolon) = some (names.text style, d.source.module) := by
  unfold text
  rw [hnames]
  exact names.clause?_text style (h.items_ne _ hnames) (h.default_ne _ hnames) isType
    (quotedModule?_sourceText h semicolon)

/-- A printed declaration is read back. -/
theorem ofText_text (first last : Nat) :
    ofText first last (d.text style semicolon) = d.declared first last := by
  cases hnames : d.names? with
  | none =>
    have hbare := Declaration.ofText_bare (quotedModule?_sourceText h semicolon)
      (countP_isQuote_sourceText h semicolon) first last
    unfold text
    rw [hnames, declared, bound, hnames]
    exact hbare
  | some n =>
    obtain ⟨isType, names⟩ := n
    rw [Declaration.ofText_of_clause? (clause?_text h style semicolon hnames),
      names.bindings_text style (h.items_ne _ hnames), declared, bound, hnames]
    rfl

end Import

/-! ## The lines of a declaration -/

/-- No line feed and no brace stands in the text. -/
def Flat (t : Text) : Prop := ∀ c ∈ t, c ≠ '\n' ∧ c ≠ '{' ∧ c ≠ '}'

instance : DecidablePred Flat := fun t => inferInstanceAs (Decidable (∀ c ∈ t, c ≠ '\n' ∧ c ≠ '{' ∧ c ≠ '}'))

theorem flat_append {a b : Text} : Flat (a ++ b) ↔ Flat a ∧ Flat b := List.forall_mem_append

theorem Flat.not_mem {t : Text} (h : Flat t) : '\n' ∉ t ∧ '{' ∉ t ∧ '}' ∉ t :=
  ⟨fun hmem => (h _ hmem).1 rfl, fun hmem => (h _ hmem).2.1 rfl, fun hmem => (h _ hmem).2.2 rfl⟩

theorem flat_of_isIdentifier {t : Text} (h : isIdentifier t = true) : Flat t := by
  intro c hc
  have hident := isIdentChar_of_mem h hc
  refine ⟨?_, ?_, ?_⟩ <;> rintro rfl <;> cases hident

theorem Names.flat_defaultText (default? : Option Ident) : Flat (defaultText default?) := by
  cases default? with
  | none => decide
  | some d => exact flat_append.mpr ⟨flat_of_isIdentifier d.2, by decide⟩

/-- The braces are open at each line feed of the text and closed at its end. -/
structure Balanced (t : Text) : Prop where
  up : ∀ x y, t = x ++ '\n' :: y → 0 < braceBalance x
  down : braceBalance t ≤ 0

theorem Flat.balanced {t : Text} (h : Flat t) : Balanced t where
  up x y ht := absurd (by simp [ht]) h.not_mem.1
  down := by
    rw [braceBalance, List.count_eq_zero.mpr h.not_mem.2.1]
    omega

theorem balanced_of_braced {a inside b : Text} (ha : Flat a) (hinside : Unmarked inside) (hb : Flat b) :
    Balanced (a ++ '{' :: (inside ++ '}' :: b)) where
  up _ _ h := Declaration.braceBalance_pos_of_braced ⟨ha.not_mem.1, ha.not_mem.2.2⟩ hinside.not_close
    hb.not_mem.1 h
  down := by
    have hopen : (a ++ '{' :: (inside ++ '}' :: b)).count '{' = 1 := by
      simp [List.count_eq_zero.mpr ha.not_mem.2.1, List.count_eq_zero.mpr hinside.not_open,
        List.count_eq_zero.mpr hb.not_mem.2.1]
    have hclose : 0 < (a ++ '{' :: (inside ++ '}' :: b)).count '}' := by simp
    rw [braceBalance, hopen]
    omega

namespace Import

variable {d : Import} (h : d.Standard) (style : ListStyle) (semicolon : Bool)

omit h in
theorem import_prefix_text : "import ".toList <+: d.text style semicolon := by
  have htype : "import ".toList <+: "import type ".toList := by decide
  unfold text
  cases d.names? with
  | none => exact List.prefix_append _ _
  | some n =>
    obtain ⟨isType, names⟩ := n
    cases isType with
    | true => exact htype.trans (List.prefix_append _ _)
    | false => exact List.prefix_append _ _

include h

theorem flat_sourceText : Flat (d.sourceText semicolon) := by
  have hquote : Flat [d.source.quote] := by
    rcases d.source.quote_valid with hq | hq <;> rw [hq] <;> decide
  have hmodule : Flat d.source.module := fun c hc =>
    ⟨fun heq => d.source.module_valid.2 (heq ▸ hc), (h.module_unmarked c hc).2⟩
  have hend : Flat (if semicolon then [';'] else []) := by
    cases semicolon <;> decide
  rw [sourceText, Quoted.text, ← List.singleton_append, flat_append, flat_append, flat_append]
  exact ⟨⟨hquote, hmodule, hquote⟩, hend⟩

theorem balanced_text : Balanced (d.text style semicolon) := by
  have hsource := flat_sourceText h semicolon
  have himport : ∀ isType : Bool, Flat (if isType then "import type ".toList else "import ".toList) := by
    decide
  have hfrom : Flat (" from ".toList ++ d.sourceText semicolon) := flat_append.mpr ⟨by decide, hsource⟩
  unfold text
  cases hnames : d.names? with
  | none => exact (flat_append.mpr ⟨by decide, hsource⟩).balanced
  | some n =>
    obtain ⟨isType, names⟩ := n
    dsimp only
    cases names with
    | one name =>
      exact (flat_append.mpr ⟨himport isType, flat_append.mpr ⟨flat_of_isIdentifier name.2, hfrom⟩⟩).balanced
    | all default? name =>
      have hall : Flat ("* as ".toList ++ name.1) :=
        flat_append.mpr ⟨by decide, flat_of_isIdentifier name.2⟩
      have hnames := flat_append.mpr ⟨Names.flat_defaultText default?, hall⟩
      exact (flat_append.mpr ⟨himport isType, flat_append.mpr ⟨hnames, hfrom⟩⟩).balanced
    | listed default? items endsWithComma =>
      have hlist := Names.unmarked_listText style endsWithComma (h.items_ne _ hnames)
      have hbraced := balanced_of_braced
        (flat_append.mpr ⟨himport isType, Names.flat_defaultText default?⟩) hlist hfrom
      rw [List.append_assoc] at hbraced
      rw [Names.text, List.append_assoc, List.cons_append, List.append_assoc, List.singleton_append]
      exact hbraced

end Import

/-! ## Texts of lines and declarations -/

/-- A line that starts no declaration, or a printed declaration. -/
inductive Block where
  | line (t : Text) (hline : '\n' ∉ t) (hstart : ¬ "import ".toList <+: t)
  | printed (d : Import) (h : d.Standard) (style : ListStyle) (semicolon : Bool)

namespace Block

def text : Block → Text
  | line t _ _ => t
  | printed d _ style semicolon => d.text style semicolon

/-- The number of lines. -/
def height (b : Block) : Nat := b.text.count '\n' + 1

/-- The declaration of a block that starts at the given line, if it has one. -/
def declared (first : Nat) : Block → List Declaration
  | line _ _ _ => []
  | printed d _ style semicolon => [d.declared first (first + (d.text style semicolon).count '\n')]

/-- The declarations of blocks below each other, the first of which starts at the given line. -/
def declaredFrom (first : Nat) : List Block → List Declaration
  | [] => []
  | b :: bs => b.declared first ++ declaredFrom (first + b.height) bs

/-- The lines of a block are read as its declaration, whatever follows. -/
theorem ofLines_splitOn_text (b : Block) (first : Nat) (below : List Text) :
    Declaration.ofLines first (Text.splitOn '\n' b.text ++ below) =
      b.declared first ++ Declaration.ofLines (first + b.height) below := by
  cases b with
  | line t hline hstart =>
    have hcount : t.count '\n' = 0 := List.count_eq_zero.mpr hline
    rw [height, text, hcount, Text.splitOn_of_not_mem hline, List.singleton_append,
      Declaration.ofLines_cons_of_not_start (Declaration.isStart_eq_false hstart)]
    rfl
  | printed d h style semicolon =>
    have hbalanced := Import.balanced_text h style semicolon
    rw [height, text, Declaration.ofLines_splitOn_append (Import.import_prefix_text style semicolon)
      hbalanced.up hbalanced.down, Import.ofText_text h style semicolon]
    rfl

theorem ofLines_text (blocks : List Block) (first : Nat) :
    Declaration.ofLines first (blocks.flatMap fun b => Text.splitOn '\n' b.text) =
      declaredFrom first blocks := by
  induction blocks generalizing first with
  | nil => exact Declaration.ofLines_nil first
  | cons b blocks ih => rw [List.flatMap_cons, ofLines_splitOn_text, ih, declaredFrom]

end Block

/-- **Reading lines and printed declarations below each other gives the declarations**, each with its first
and last line, the names it binds and its module. -/
theorem declarations_text (blocks : List Block) :
    declarations (['\n'].intercalate (blocks.map Block.text)) = Block.declaredFrom 0 blocks := by
  cases blocks with
  | nil =>
    have hempty : Declaration.ofLines 0 [[]] = [] := by
      rw [Declaration.ofLines_cons_of_not_start rfl, Declaration.ofLines_nil]
    exact hempty
  | cons b blocks =>
    rw [declarations, Text.splitOn_intercalate_eq_flatMap '\n' (by simp), List.flatMap_map]
    exact Block.ofLines_text (b :: blocks) 0

def typesImport : Import where
  names? := some (true, .listed (some ⟨"from".toList, by decide⟩)
    [⟨true, ⟨"as".toList, by decide⟩, some ⟨"X".toList, by decide⟩⟩,
      ⟨false, ⟨"type".toList, by decide⟩, none⟩] true)
  source := .single "./t".toList (by decide)

def pathImport : Import where
  names? := some (false, .all (some ⟨"as".toList, by decide⟩) ⟨"from".toList, by decide⟩)
  source := .double "import from".toList (by decide)

def styleImport : Import := ⟨none, .double "from".toList (by decide)⟩

/-- Declarations whose names and modules look like words of the syntax. -/
def wordBlocks : List Block := [
  .line "\x7d // \x7b".toList (by decide) (by decide),
  .printed typesImport ⟨by decide, by decide, by decide⟩ (.broken "  ".toList (by decide)) true,
  .line "\x7b import x".toList (by decide) (by decide),
  .printed pathImport ⟨by decide, by decide, by decide⟩ .inline false,
  .printed styleImport ⟨by decide, by decide, by decide⟩ .inline true]

theorem declarations_text_words :
    declarations ("\x7d // \x7b\nimport type from, \x7b\n  type as as X,\n  type,\n".toList ++
        "\x7d from './t';\n\x7b import x\nimport as, * as from from \"import from\"\n".toList ++
        "import \"from\";".toList) =
      [⟨1, 4, ["from".toList, "X".toList, "type".toList], some "./t".toList⟩,
        ⟨6, 6, ["as".toList, "from".toList], some "import from".toList⟩, ⟨7, 7, [], some "from".toList⟩] := by
  refine Eq.trans (congrArg declarations ?_) ((declarations_text wordBlocks).trans ?_)
  · decide +kernel
  · decide +kernel

end Constify
