import Constify.Table.Basic
import Constify.Text.Replace

/-!
# Substitutions

* `Context` : the four places where a literal is replaced;
* `Substitution` : a text to look for and its replacement;
* `Table.substitutions` : the substitutions of a table in the order in which they are made;
* `Table.lift` : a text with every substitution made, and the counts.
-/

namespace Constify

/-- Where a quoted literal is replaced. -/
inductive Context where
  | equality
  | inequality
  | membershipList
  | callArgument
  deriving DecidableEq, Repr

namespace Context

def label : Context → Text
  | equality => "equality".toList
  | inequality => "inequality".toList
  | membershipList => "membership_list".toList
  | callArgument => "call_argument".toList

/-- The text of a context around `t`. -/
def wrap (t : Text) : Context → Text
  | equality => "=== ".toList ++ t
  | inequality => "!== ".toList ++ t
  | membershipList => '[' :: t ++ [']']
  | callArgument => '(' :: t ++ [')']

end Context

/-- A text to look for and what to put in its place. The key is the entry's, or none for the list
of all literals. -/
structure Substitution where
  context : Context
  key : Option Text
  pattern : Text
  replacement : Text
  deriving DecidableEq, Repr

def quoted (literal : Text) : Text := '"' :: literal ++ ['"']

namespace Table

def entrySubstitution (t : Table) (context : Context) (e : Entry) : Substitution where
  context := context
  key := some e.key
  pattern := context.wrap (quoted e.literal)
  replacement := context.wrap (t.reference e)

/-- The substitution of the list of all literals, in the table's order. -/
def listSubstitution (t : Table) : Substitution where
  context := .membershipList
  key := none
  pattern := Context.membershipList.wrap
    (", ".toList.intercalate (t.entries.map fun e => quoted e.literal))
  replacement := Context.membershipList.wrap (", ".toList.intercalate (t.entries.map t.reference))

/-- The substitutions of a table: every equality, every inequality, the list, every call. -/
def substitutions (t : Table) : List Substitution :=
  t.entries.map (t.entrySubstitution .equality) ++ t.entries.map (t.entrySubstitution .inequality) ++
    t.listSubstitution :: t.entries.map (t.entrySubstitution .callArgument)

end Table

/-! ## Making substitutions -/

structure Hit where
  context : Context
  key : Option Text
  count : Nat
  deriving DecidableEq, Repr

/-- A text after substitutions, with the substitutions that were made at least once. -/
structure Lifted where
  content : Text
  hits : List Hit
  deriving DecidableEq, Repr

def totalCount (hits : List Hit) : Nat := hits.foldr (fun h n => h.count + n) 0

namespace Substitution

def apply (s : Substitution) (content : Text) : Text :=
  Text.replaceAll s.pattern s.replacement content

def count (s : Substitution) (content : Text) : Nat := Text.countOf s.pattern content

/-- The substitution's entry in the report, if it was made. -/
def hit? (s : Substitution) (content : Text) : Option Hit :=
  let n := s.count content
  if n = 0 then none else some ⟨s.context, s.key, n⟩

/-- Make the substitutions one after the other. -/
def applyAll : List Substitution → Text → Lifted
  | [], content => ⟨content, []⟩
  | s :: ss, content =>
    let rest := applyAll ss (s.apply content)
    ⟨rest.content, (s.hit? content).toList ++ rest.hits⟩

end Substitution

/-- The text with the table's literals replaced by references. -/
def Table.lift (t : Table) (content : Text) : Lifted :=
  Substitution.applyAll t.substitutions content

end Constify
