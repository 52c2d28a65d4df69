import Constify.Toml.Scalar
import Constify.Toml.Nesting

/-!
# Documents

* `dottedKey`, `value` : keys and values with their limits on depth;
* `Statement`, `statements?` : the pairs and headers of a document, line by line;
* `document?` : the entries of a document.
-/

namespace Constify.Toml

/-! ## Keys -/

def isBareKeyChar (c : Char) : Bool := c.isAlphanum || c == '_' || c == '-'

def keyPart : Scanner Text := do
  Scanner.space
  let k ← Scanner.lineString.orElse (Scanner.takeWhile1 isBareKeyChar)
  Scanner.space
  return k

def keyParts (t : Text) : Option (List Text × Tail t) :=
  match keyPart t with
  | none => none
  | some (k, r) =>
    match hr : r.1 with
    | '.' :: u =>
      have hu : u.length < t.length := by
        have := r.2
        simp only [hr, List.length_cons] at this
        omega
      (keyParts u).map fun (ks, s) => (k :: ks, ⟨s.1, by have := s.2; omega⟩)
    | _ => some ([k], r)
termination_by t.length

/-- A key has fewer parts than this, and arrays and inline tables nest less deep. -/
def depthLimit : Nat := 80

/-- A key: the parts before the last one, and the last one. -/
def dottedKey : Scanner (List Text × Text) := do
  let ks ← keyParts
  Scanner.check (ks.length < depthLimit)
  return (ks.dropLast, ks.getLastD [])

/-! ## Values -/

/-- A pair of a document or of an inline table: the parts of its key before the last one, the last
one, and the value. -/
structure Pair where
  path : List Text
  key : Text
  value : Value

def Pair.insertInto (p : Pair) (entries : Entries) : Option Entries :=
  insertDotted p.key p.value p.path entries

def pair (element : Scanner Value) : Scanner Pair := do
  let (path, key) ← dottedKey
  Scanner.char '='
  Scanner.space
  let v ← element
  return ⟨path, key, v⟩

/-- The items of an array and its closing bracket. A comma may stand after the last item. -/
def items (element : Scanner Value) (t : Text) : Option (List Value × Tail t) :=
  let s := skipTrivia t
  match hs : s.1 with
  | ']' :: u => some ([], ⟨u, by have := s.2; simp only [hs, List.length_cons] at this; omega⟩)
  | _ =>
    match element s.1 with
    | none => none
    | some (v, r) =>
      let e := (s.trans r).trans (skipTrivia r.1)
      match he : e.1 with
      | ']' :: u => some ([v], ⟨u, by have := e.2; simp only [he, List.length_cons] at this; omega⟩)
      | ',' :: u =>
        have hu : u.length < t.length := by
          have := e.2
          simp only [he, List.length_cons] at this
          omega
        (items element u).map fun (vs, w) => (v :: vs, ⟨w.1, by have := w.2; omega⟩)
      | _ => none
termination_by t.length

/-- The pairs of an inline table, at least one, and its closing brace. -/
def inlinePairs (element : Scanner Value) (t : Text) : Option (List Pair × Tail t) :=
  match pair element t with
  | none => none
  | some (p, r) =>
    let e := r.trans (skipSpace r.1)
    match he : e.1 with
    | '}' :: u => some ([p], ⟨u, by have := e.2; simp only [he, List.length_cons] at this; omega⟩)
    | ',' :: u =>
      have hu : u.length < t.length := by
        have := e.2
        simp only [he, List.length_cons] at this
        omega
      (inlinePairs element u).map fun (ps, w) => (p :: ps, ⟨w.1, by have := w.2; omega⟩)
    | _ => none
termination_by t.length

def array (element : Scanner Value) : Scanner Value := do
  Scanner.char '['
  let vs ← items element
  return .array vs

def inlineTable (element : Scanner Value) : Scanner Value := do
  Scanner.char '{'
  Scanner.space
  let ps ← Scanner.orElse (do Scanner.char '}'; return []) (inlinePairs element)
  match ps.foldlM (fun entries p => p.insertInto entries) [] with
  | some entries => return .table .inline entries
  | none => Scanner.fail

/-- A value in which arrays and inline tables nest at most `depth` deep. -/
def value : (depth : Nat) → Scanner Value
  | 0 => Scanner.scalar
  | depth + 1 => (Scanner.scalar.orElse (array (value depth))).orElse (inlineTable (value depth))

/-! ## Statements -/

/-- A line of a document: a pair, the header of a table, or the header of one of repeated tables. A
header has the keys before the last one, and the last one. -/
inductive Statement where
  | pair (p : Pair)
  | table (path : List Text) (key : Text)
  | item (path : List Text) (key : Text)

def tableHeader : Scanner Statement := do
  Scanner.char '['
  let (path, key) ← dottedKey
  Scanner.char ']'
  return .table path key

/-- The header `[[key]]`, whose double brackets have nothing between them. -/
def itemHeader : Scanner Statement := do
  Scanner.char '['
  Scanner.char '['
  let (path, key) ← dottedKey
  Scanner.char ']'
  Scanner.char ']'
  return .item path key

def statement : Scanner Statement :=
  (itemHeader.orElse tableHeader).orElse do return .pair (← pair (value (depthLimit - 1)))

/-- The statements of a text, one a line. -/
def statements? (t : Text) : Option (List Statement) :=
  match lineEnd? t with
  | some .endOfText => some []
  | some (.newline r) => statements? r.1
  | none =>
    match statement (skipSpace t).1 with
    | none => none
    | some (s, r) =>
      match lineEnd? r.1 with
      | none => none
      | some .endOfText => some [s]
      | some (.newline u) => (statements? u.1).map (s :: ·)
termination_by t.length
decreasing_by
  · exact r.2
  · have := u.2; have := r.2; have := (skipSpace t).2; omega

/-! ## The document -/

/-- A document up to a line: its entries, and the keys of the table that pairs go into. -/
structure Cursor where
  root : Entries
  path : List Text

def Cursor.step (c : Cursor) : Statement → Option Cursor
  | .pair p => (within p.insertInto c.path c.root).map fun root => { c with root }
  | .table path key => (within (openTable key) path c.root).map fun root => ⟨root, path ++ [key]⟩
  | .item path key => (within (openItem key) path c.root).map fun root => ⟨root, path ++ [key]⟩

/-- The entries of a document; nothing if the text is no document. One byte order mark may stand at
its front. -/
def document? (t : Text) : Option Entries :=
  let t := match t with
    | '\ufeff' :: r => r
    | _ => t
  ((statements? t).bind fun ss => ss.foldlM Cursor.step ⟨[], []⟩).map Cursor.root

end Constify.Toml
