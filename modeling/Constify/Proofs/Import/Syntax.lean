import Constify.Proofs.Import.Scan
import Constify.Proofs.Text.Blank

/-!
# Import declarations as syntax

* `ListedName`, `Names`, `Quoted`, `Import` : what an import declaration says;
* `Import.bound` : the names it binds;
* `Import.tokens` : its words and signs after the word `import`;
* `Spaced tokens t` : the text has these tokens in order, with blanks in front of each;
* `Import.Written d t` : the text is the declaration in some layout;
* `Import.exists_front_eq` : it has at most one pair of braces, and then its module;
* `Import.braceBalance_pos_iff` : so the balance at a line feed is positive inside the braces only.
-/

namespace Constify

/-- A name that is an identifier. -/
abbrev Ident := { t : Text // isIdentifier t = true }

/-- An entry of a braced list: a name, perhaps with an alias and perhaps behind the word `type`. -/
structure ListedName where
  isType : Bool
  name : Ident
  alias? : Option Ident

/-- The names that a declaration binds: a default name, a name for the whole module or a braced list, the
last two perhaps behind a default name. A list may end with a comma. -/
inductive Names where
  | one (name : Ident)
  | all (default? : Option Ident) (name : Ident)
  | listed (default? : Option Ident) (items : List ListedName) (endsWithComma : Bool)

/-- A module in quotes of either kind, with no such quote and no line feed between them. -/
structure Quoted where
  quote : Char
  module : Text
  quote_valid : quote = '"' ∨ quote = '\''
  module_valid : quote ∉ module ∧ '\n' ∉ module

/-- A module in double quotes. -/
def Quoted.double (module : Text) (h : '"' ∉ module ∧ '\n' ∉ module) : Quoted := ⟨'"', module, .inl rfl, h⟩

/-- A module in single quotes. -/
def Quoted.single (module : Text) (h : '\'' ∉ module ∧ '\n' ∉ module) : Quoted := ⟨'\'', module, .inr rfl, h⟩

/-- An import declaration: the names, if it names any, perhaps behind the word `type`, and the module. -/
structure Import where
  names? : Option (Bool × Names)
  source : Quoted

/-! ## Local names -/

/-- The name that an entry binds: its alias, else its name. -/
def ListedName.bound (n : ListedName) : Text := (n.alias?.getD n.name).1

/-- The names that are bound: the default name, then the others in order. -/
def Names.bound : Names → List Text
  | one name => [name.1]
  | all default? name => (default?.map Subtype.val).toList ++ [name.1]
  | listed default? items _ => (default?.map Subtype.val).toList ++ items.map ListedName.bound

def Import.bound (d : Import) : List Text := (d.names?.map fun n => n.2.bound).getD []

/-! ## Tokens -/

/-- The tokens of an entry of a list. -/
def ListedName.tokens (n : ListedName) : List Text :=
  (if n.isType then ["type".toList] else []) ++
    n.name.1 :: (n.alias?.map fun a => ["as".toList, a.1]).getD []

namespace Names

/-- A default name and the comma behind it. -/
def defaultTokens (default? : Option Ident) : List Text :=
  (default?.map fun d => [d.1, [',']]).getD []

def tokens : Names → List Text
  | one name => [name.1]
  | all default? name => defaultTokens default? ++ [['*'], "as".toList, name.1]
  | listed default? items endsWithComma =>
    defaultTokens default? ++ ['{'] :: ([[',']].intercalate (items.map ListedName.tokens) ++
      (if endsWithComma then [[',']] else []) ++ [['}']])

end Names

def Quoted.text (s : Quoted) : Text := s.quote :: (s.module ++ [s.quote])

namespace Import

/-- The tokens between the word `import` and the module. -/
def nameTokens (d : Import) : List Text :=
  match d.names? with
  | none => []
  | some (isType, names) =>
    (if isType then ["type".toList] else []) ++ names.tokens ++ ["from".toList]

def tokens (d : Import) : List Text := d.nameTokens ++ [d.source.text]

end Import

/-- The text has these tokens in order, with blanks in front of each. Two tokens do not run together into
one word. -/
inductive Spaced : List Text → Text → Prop
  | nil : Spaced [] []
  | cons {gap token t : Text} {tokens : List Text} (hgap : Blanks gap) (ht : Spaced tokens t)
      (hapart : ∀ c ∈ token.getLast?, ∀ d ∈ t.head?, isIdentChar c = true → isIdentChar d = false) :
      Spaced (token :: tokens) (gap ++ (token ++ t))

/-- The text is the declaration, with `import` and a space at its front and any blanks between its other
tokens. -/
def Import.Written (d : Import) (text : Text) : Prop :=
  ∃ t, Spaced d.tokens t ∧ text = "import ".toList ++ t

/-! ## Braces -/

/-- The braces of a text. -/
def braces (t : Text) : Text := t.filter fun c => c == '{' || c == '}'

theorem braces_append (a b : Text) : braces (a ++ b) = braces a ++ braces b := List.filter_append ..

theorem braces_of_blanks {t : Text} (h : Blanks t) : braces t = [] := by
  rw [braces, List.filter_eq_nil_iff]
  intro c hc hbrace
  have hblank := h c hc
  simp only [Bool.or_eq_true, beq_iff_eq] at hbrace
  rcases hbrace with rfl | rfl <;> exact absurd hblank (by decide)

theorem braces_of_isIdentifier {t : Text} (h : isIdentifier t = true) : braces t = [] := by
  rw [braces, List.filter_eq_nil_iff]
  intro c hc hbrace
  have hident := isIdentChar_of_mem h hc
  simp only [Bool.or_eq_true, beq_iff_eq] at hbrace
  rcases hbrace with rfl | rfl <;> exact absurd hident (by decide)

theorem braces_flatten_intercalate {s : List Text} (hs : braces s.flatten = []) {ls : List (List Text)}
    (hls : ∀ l ∈ ls, braces l.flatten = []) : braces (s.intercalate ls).flatten = [] := by
  induction ls with
  | nil => rfl
  | cons l ls ih =>
    have hrest := ih fun l' hl' => hls l' (List.mem_cons_of_mem _ hl')
    cases ls with
    | nil => simpa using hls l (by simp)
    | cons l' ls =>
      rw [List.intercalate_cons_cons, List.flatten_append, List.flatten_append, braces_append, braces_append,
        hls l (by simp), hs, hrest]
      rfl

theorem ListedName.braces_tokens (n : ListedName) : braces n.tokens.flatten = [] := by
  have htype : braces (if n.isType then ["type".toList] else []).flatten = [] := by
    cases n.isType <;> decide
  rw [tokens, List.flatten_append, List.flatten_cons, braces_append, braces_append, htype,
    braces_of_isIdentifier n.name.2]
  cases n.alias? with
  | none => rfl
  | some a =>
    show braces ("as".toList ++ (a.1 ++ [])) = []
    rw [braces_append, braces_append, braces_of_isIdentifier a.2]
    rfl

theorem Names.braces_defaultTokens (default? : Option Ident) :
    braces (defaultTokens default?).flatten = [] := by
  cases default? with
  | none => rfl
  | some d =>
    show braces (d.1 ++ [',']) = []
    rw [braces_append, braces_of_isIdentifier d.2]
    rfl

theorem Names.braces_tokens (names : Names) :
    braces names.tokens.flatten = [] ∨ braces names.tokens.flatten = ['{', '}'] := by
  cases names with
  | one name =>
    left
    show braces (name.1 ++ []) = []
    rw [braces_append, braces_of_isIdentifier name.2]
    rfl
  | all default? name =>
    left
    rw [tokens, List.flatten_append, braces_append, braces_defaultTokens]
    show braces (['*'] ++ ("as".toList ++ (name.1 ++ []))) = []
    rw [braces_append, braces_append, braces_append, braces_of_isIdentifier name.2]
    rfl
  | listed default? items endsWithComma =>
    right
    have hitems : braces ([[',']].intercalate (items.map ListedName.tokens)).flatten = [] := by
      refine braces_flatten_intercalate rfl fun l hl => ?_
      obtain ⟨n, -, rfl⟩ := List.mem_map.mp hl
      exact n.braces_tokens
    rw [tokens, List.flatten_append, List.flatten_cons, List.flatten_append, List.flatten_append,
      braces_append, braces_append, braces_append, braces_append, braces_defaultTokens, hitems]
    cases endsWithComma <;> decide

namespace Import

theorem braces_nameTokens (d : Import) :
    braces d.nameTokens.flatten = [] ∨ braces d.nameTokens.flatten = ['{', '}'] := by
  rw [nameTokens]
  cases d.names? with
  | none => exact Or.inl rfl
  | some p =>
    obtain ⟨isType, names⟩ := p
    have htype : braces (if isType then ["type".toList] else []).flatten = [] := by
      cases isType <;> decide
    have hfrom : braces ["from".toList].flatten = [] := by decide
    dsimp only
    rw [List.flatten_append, List.flatten_append, braces_append, braces_append, htype, hfrom,
      List.nil_append, List.append_nil]
    exact names.braces_tokens

end Import

/-- Only blanks stand between the tokens, so the last one ends the text. -/
theorem Spaced.exists_front_eq {tokens : List Text} {last t : Text} (h : Spaced (tokens ++ [last]) t) :
    ∃ front, t = front ++ last ∧ braces front = braces tokens.flatten := by
  induction tokens generalizing t with
  | nil =>
    cases h with
    | @cons gap _ t _ hgap ht _ =>
      cases ht
      exact ⟨gap, by simp, by rw [braces_of_blanks hgap]; rfl⟩
  | cons token tokens ih =>
    cases h with
    | @cons gap _ t _ hgap ht _ =>
      obtain ⟨front, rfl, hfront⟩ := ih ht
      refine ⟨gap ++ (token ++ front), by simp, ?_⟩
      rw [braces_append, braces_append, braces_of_blanks hgap, hfront, List.flatten_cons, braces_append]
      rfl

namespace Import

variable {d : Import} {text : Text}

/-- A written declaration is a text with at most one pair of braces, and then the module. -/
theorem exists_front_eq (h : d.Written text) :
    ∃ front, text = front ++ d.source.text ∧ "import ".toList <+: front ∧
      (braces front = [] ∨ braces front = ['{', '}']) := by
  obtain ⟨t, ht, rfl⟩ := h
  obtain ⟨front, rfl, hfront⟩ := Spaced.exists_front_eq ht
  refine ⟨"import ".toList ++ front, by simp, List.prefix_append _ _, ?_⟩
  have himport : braces "import ".toList = [] := by decide
  rw [braces_append, himport, List.nil_append, hfront]
  exact d.braces_nameTokens

theorem newline_not_mem_source (s : Quoted) : '\n' ∉ s.text := by
  have hquote : '\n' ≠ s.quote := by
    rcases s.quote_valid with h | h <;> rw [h] <;> decide
  simp only [Quoted.text, List.mem_cons, List.mem_append, List.not_mem_nil, or_false, not_or]
  exact ⟨hquote, s.module_valid.2, hquote⟩

/-- At a line feed of a written declaration the balance is positive exactly inside the braces. -/
theorem braceBalance_pos_iff (h : d.Written text) {a b : Text} (hab : text = a ++ '\n' :: b) :
    0 < Declaration.braceBalance a ↔ '{' ∈ a ∧ '}' ∉ a := by
  obtain ⟨front, rfl, -, hfront⟩ := exists_front_eq h
  have hopened : braces a <+: braces front := by
    rcases List.append_eq_append_iff.mp hab with ⟨v, -, hv⟩ | ⟨v, rfl, -⟩
    · exact absurd (by simp [hv]) (newline_not_mem_source d.source)
    · rw [braces_append]
      exact List.prefix_append _ _
  have hcases : braces a ∈ [[], ['{'], ['{', '}']] := by
    rcases hfront with hfront | hfront
    · rw [hfront, List.prefix_nil] at hopened
      simp [hopened]
    · have hmem : braces a ∈ ['{', '}'].inits := by rwa [List.mem_inits, ← hfront]
      simpa using hmem
  have hopen : (braces a).count '{' = a.count '{' := List.count_filter (by decide)
  have hclose : (braces a).count '}' = a.count '}' := List.count_filter (by decide)
  rw [Declaration.braceBalance, ← hopen, ← hclose, ← List.count_pos_iff, ← List.count_eq_zero, ← hopen,
    ← hclose]
  simp only [List.mem_cons, List.not_mem_nil, or_false] at hcases
  rcases hcases with hcases | hcases | hcases <;> rw [hcases] <;> decide

end Import

end Constify
