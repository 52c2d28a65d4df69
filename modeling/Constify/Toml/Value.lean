import Constify.Text.Basic

/-!
# TOML values

* `Value` : the values of a document; floats and date-times keep their spelling;
* `TableForm` : how a table came to be, which decides what may still be added to it;
* `lookup?` : the value of a key;
* `Value.fields?` : a value read as a record with named fields.
-/

namespace Constify.Toml

inductive TableForm where
  /-- Between braces. -/
  | inline
  /-- Under a header of its own. -/
  | header
  /-- Only as the parent of a table with a header. -/
  | implied
  /-- By a dotted key. -/
  | dotted
  deriving DecidableEq, Repr

/-- A value of a document. `array` is written between brackets, `tables` by repeated headers. -/
inductive Value where
  | string (text : Text)
  | integer (n : Int)
  | float (spelling : Text)
  | boolean (b : Bool)
  | dateTime (spelling : Text)
  | array (items : List Value)
  | table (form : TableForm) (entries : List (Text × Value))
  | tables (items : List (List (Text × Value)))
  deriving Repr

/-- The entries of a table in the order in which they were written. -/
abbrev Entries := List (Text × Value)

def lookup? (key : Text) (entries : Entries) : Option Value :=
  (entries.find? fun e => e.1 == key).map Prod.snd

/-- Put a value under a key: in the place of the key's value, or at the end. -/
def put (key : Text) (v : Value) : Entries → Entries
  | [] => [(key, v)]
  | e :: es => if e.1 = key then (key, v) :: es else e :: put key v es

namespace Value

def text? : Value → Option Text
  | string t => some t
  | _ => none

def texts? : Value → Option (List Text)
  | array items => items.mapM text?
  | _ => none

/-- A value read as a record with these field names: a table gives the fields by name, an array by
position, and a date-time is a record without fields. Other keys and further items are not looked
at. -/
def fields? (names : List Text) : Value → Option (List (Option Value))
  | table _ entries => some (names.map (lookup? · entries))
  | array items => some ((items.map some ++ names.map fun _ => none).take names.length)
  | tables items =>
    some (((items.map fun t => some (table .header t)) ++ names.map fun _ => none).take names.length)
  | dateTime _ => some (names.map fun _ => none)
  | _ => none

end Value

end Constify.Toml
