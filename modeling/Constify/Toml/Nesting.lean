import Constify.Toml.Value

/-!
# Building nested tables

* `insertDotted` : a value put under a dotted key of a table;
* `within` : a table changed at the place where a header leads;
* `openTable`, `openItem` : what the headers `[key]` and `[[key]]` do to the parent of the key.

A table may be defined once. What a header or a dotted key may still enter is decided by how the
table came to be.
-/

namespace Constify.Toml

/-- Put a value under a dotted key, the last part of which is `key`. The tables on the way are made
by dotted keys; the last of them must be, and none may have a header or be written inline. -/
def insertDotted (key : Text) (v : Value) : (path : List Text) → Entries → Option Entries
  | [], entries => if (lookup? key entries).isNone then some (put key v entries) else none
  | k :: ks, entries =>
    match lookup? k entries with
    | none => (insertDotted key v ks []).map fun sub => put k (.table .dotted sub) entries
    | some (.table .dotted sub) =>
      (insertDotted key v ks sub).map fun sub => put k (.table .dotted sub) entries
    | some (.table .implied sub) =>
      if ks = [] then none
      else (insertDotted key v ks sub).map fun sub => put k (.table .implied sub) entries
    | some (.tables items) =>
      if ks = [] then none
      else
        match items.getLast? with
        | none => none
        | some sub =>
          (insertDotted key v ks sub).map fun sub =>
            put k (.tables (items.dropLast ++ [sub])) entries
    | some _ => none

/-- Change the table that the keys lead to. Missing tables on the way are implied, of repeated
tables the last one is entered, and inline tables and other values cannot be entered. -/
def within (change : Entries → Option Entries) : (path : List Text) → Entries → Option Entries
  | [], entries => change entries
  | k :: ks, entries =>
    match lookup? k entries with
    | none => (within change ks []).map fun sub => put k (.table .implied sub) entries
    | some (.table form sub) =>
      if form = .inline then none
      else (within change ks sub).map fun sub => put k (.table form sub) entries
    | some (.tables items) =>
      match items.getLast? with
      | none => none
      | some sub =>
        (within change ks sub).map fun sub => put k (.tables (items.dropLast ++ [sub])) entries
    | some _ => none

/-- The header `[key]` defines a table that is not there yet, or is only implied. -/
def openTable (key : Text) (entries : Entries) : Option Entries :=
  match lookup? key entries with
  | none => some (put key (.table .header []) entries)
  | some (.table .implied sub) => some (put key (.table .header sub) entries)
  | some _ => none

/-- The header `[[key]]` defines one more of the repeated tables. -/
def openItem (key : Text) (entries : Entries) : Option Entries :=
  match lookup? key entries with
  | none => some (put key (.tables [[]]) entries)
  | some (.tables items) => some (put key (.tables (items ++ [[]])) entries)
  | some _ => none

end Constify.Toml
