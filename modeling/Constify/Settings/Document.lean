import Constify.Settings.Basic
import Constify.Toml.Document

/-!
# Settings from a document

* `Settings.ofEntries?` : the settings that the entries of a document give, with the usual values
  for those that are missing;
* `Settings.read` : the settings of a text, checked.
-/

namespace Constify

open Toml (Value Entries lookup?)

/-- The value of a field, or the default where the field is missing. -/
def fieldOr {α : Type} (read : Value → Option α) (default : α) : Option Value → Option α
  | none => some default
  | some v => read v

def Constants.ofValue? (v : Value) : Option Constants := do
  let fields ← v.fields?
    ["identifier".toList, "module".toList, "source".toList, "categories".toList]
  match fields with
  | [identifier, module, source, categories] =>
    return {
      identifier := ← fieldOr Value.text? standard.identifier identifier
      module := ← fieldOr Value.text? standard.module module
      source := ← fieldOr (fun v => v.text?.map some) none source
      categories := ← fieldOr (fun v => v.texts?.map some) none categories }
  | _ => none

def Layout.ofValue? (v : Value) : Option Layout := do
  match ← v.fields? ["nested".toList, "deep".toList] with
  | [nested, deep] =>
    return {
      nested := ← fieldOr Value.texts? standard.nested nested
      deep := ← fieldOr Value.texts? standard.deep deep }
  | _ => none

inductive SettingsError where
  /-- It is no document, or a value has the wrong type. -/
  | malformed
  /-- A value is out of range. -/
  | invalid (fault : SettingsFault)
  deriving DecidableEq, Repr

namespace Settings

/-- The settings that the entries of a document give. Other entries are not looked at. -/
def ofEntries? (entries : Entries) : Option Settings :=
  return {
    root := ← fieldOr Value.text? standard.root (lookup? "root".toList entries)
    extensions := ← fieldOr Value.texts? standard.extensions (lookup? "extensions".toList entries)
    exclude := ← fieldOr Value.texts? standard.exclude (lookup? "exclude".toList entries)
    constants :=
      ← fieldOr Constants.ofValue? standard.constants (lookup? "constants".toList entries)
    layout := ← fieldOr Layout.ofValue? standard.layout (lookup? "layout".toList entries) }

def read (text : Text) : Except SettingsError Settings :=
  match (Toml.document? text).bind ofEntries? with
  | none => .error .malformed
  | some s =>
    match s.fault? with
    | some fault => .error (.invalid fault)
    | none => .ok s

/-- Settings that were read have no fault. -/
theorem fault?_of_read {text : Text} {s : Settings} (h : read text = .ok s) : s.fault? = none := by
  unfold read at h
  split at h
  · simp at h
  · split at h
    · simp at h
    · next hf => cases h; exact hf

end Settings

end Constify
