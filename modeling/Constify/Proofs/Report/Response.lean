import Constify.CommandLine
import Constify.Proofs.Report.Reader

/-!
# Reading reports back

An answer is read field by field. A field is found by its key, wherever it stands in its object; a key that stands
in an object twice, or a field of another kind, is refused.

* `Json.values`, `Json.field?`, `Json.optional?` : the fields of an object;
* `Response.ofJson?`, `Response.read?` : an answer of a run that succeeds, from its value and from its text;
* `Response.ofJson?_json` : the value of a report is read back;
* `Response.read?_document` : so is its text.
-/

namespace Constify

/-! ## Fields -/

namespace Json

@[simp] def asText? : Json → Option Text
  | string t => some t
  | _ => none

@[simp] def asNumber? : Json → Option Nat
  | number n => some n
  | _ => none

@[simp] def asBoolean? : Json → Option Bool
  | boolean b => some b
  | _ => none

/-- The items of an array, each read in the same way. -/
def asList? {α : Type} (read? : Json → Option α) : Json → Option (List α)
  | array items => items.mapM read?
  | _ => none

/-- The values that stand behind a key. -/
def values (key : Text) : Json → List Json
  | object members => (members.filter fun m => m.1 = key).map Prod.snd
  | _ => []

/-- A field that has to be there. -/
def field? {α : Type} (key : Text) (read? : Json → Option α) (j : Json) : Option α :=
  match j.values key with
  | [v] => read? v
  | _ => none

/-- A field that may be left out. -/
def optional? {α : Type} (key : Text) (read? : Json → Option α) (j : Json) : Option (Option α) :=
  match j.values key with
  | [] => some none
  | [v] => (read? v).map some
  | _ => none

@[simp] theorem values_cons (key k : Text) (v : Json) (members : List (Text × Json)) :
    (object ((k, v) :: members)).values key =
      if k = key then v :: (object members).values key else (object members).values key := by
  by_cases h : k = key <;> simp [values, h]

@[simp] theorem values_nil (key : Text) : (object []).values key = [] := rfl

theorem asList?_map {α : Type} {read? : Json → Option α} {write : α → Json} (h : ∀ a, read? (write a) = some a)
    (as : List α) : asList? read? (array (as.map write)) = some as := by
  rw [asList?]
  induction as with
  | nil => rfl
  | cons a as ih => simp [h, ih]

end Json

open Json (asText? asNumber? asBoolean? asList?)

/-! ## Answers -/

def Context.ofLabel? (t : Text) : Option Context :=
  [.equality, .inequality, .membershipList, .callArgument].find? fun c => c.label = t

def Hit.ofJson? (j : Json) : Option Hit := do
  let context ← Context.ofLabel? (← j.field? "context".toList asText?)
  return ⟨context, ← j.optional? "key".toList asText?, ← j.field? "count".toList asNumber?⟩

def UpdatedFile.ofJson? (j : Json) : Option UpdatedFile := do
  return ⟨← j.field? "path".toList asText?, ← j.field? "substitutions".toList asNumber?,
    ← j.field? "import_added".toList asBoolean?, ← j.field? "hits".toList (asList? Hit.ofJson?),
    ← j.optional? "diff".toList asText?⟩

def FailedFile.ofJson? (j : Json) : Option FailedFile := do
  return ⟨← j.field? "path".toList asText?, ← j.field? "error".toList asText?⟩

def Report.ofJson? (j : Json) : Option Report := do
  return ⟨← j.field? "root".toList asText?, ← j.field? "dry_run".toList asBoolean?,
    ← j.field? "scanned".toList asNumber?, ← j.field? "updated".toList (asList? UpdatedFile.ofJson?),
    ← j.field? "failed".toList (asList? FailedFile.ofJson?)⟩

/-- The answer of a run that succeeds: a report between what goes with it. -/
structure Response where
  status : Text
  version : Text
  report : Report
  updatedCount : Nat
  deriving DecidableEq, Repr

def Response.ofJson? (j : Json) : Option Response := do
  return ⟨← j.field? "status".toList asText?, ← j.field? "schema_version".toList asText?, ← Report.ofJson? j,
    ← j.field? "updated_count".toList asNumber?⟩

def Response.read? (t : Text) : Option Response := (Json.decode? t).bind Response.ofJson?

/-! ## Reading back -/

theorem Context.ofLabel?_label (c : Context) : Context.ofLabel? c.label = some c := by cases c <;> decide

theorem Hit.ofJson?_json (h : Hit) : Hit.ofJson? h.json = some h := by
  obtain ⟨context, key, count⟩ := h
  cases key <;> simp [ofJson?, json, Json.field?, Json.optional?, Context.ofLabel?_label]

theorem UpdatedFile.ofJson?_json (f : UpdatedFile) : UpdatedFile.ofJson? f.json = some f := by
  obtain ⟨path, substitutions, importAdded, hits, diff⟩ := f
  have hhits := Json.asList?_map Hit.ofJson?_json hits
  cases diff <;> simp [ofJson?, json, Json.field?, Json.optional?, hhits]

theorem FailedFile.ofJson?_json (f : FailedFile) : FailedFile.ofJson? f.json = some f := by
  simp [ofJson?, json, Json.field?]

theorem Report.ofJson?_json (r : Report) : Report.ofJson? r.json = some r := by
  have hupdated := Json.asList?_map UpdatedFile.ofJson?_json r.updated
  have hfailed := Json.asList?_map FailedFile.ofJson?_json r.failed
  simp [ofJson?, json, Json.field?, hupdated, hfailed]

/-- The value of a report is read back. -/
theorem Response.ofJson?_json (r : Report) :
    Response.ofJson? r.json = some ⟨"ok".toList, schemaVersion, r, r.updated.length⟩ := by
  rw [ofJson?, r.ofJson?_json]
  simp [Report.json, Json.field?]

/-! ## The text of a report -/

namespace Json

theorem getLast?_pretty_object (depth : Nat) (members : List (Text × Json)) :
    (pretty depth (object members)).getLast? = some '}' := by
  rw [pretty, bracketed]
  split
  · rfl
  · exact List.getLast?_concat ..

/-- A document is decoded to the value that it was made of, and to no other. -/
theorem padded_document_iff (i j : Json) : Padded (Denotes i) j.document ↔ i = j := by
  have hpadded : Padded (Denotes j) j.document :=
    ⟨[], pretty 0 j, ['\n'], by simp [Gap], denotes_pretty j 0, by decide, rfl⟩
  constructor
  · intro h
    exact Option.some.inj ((decode?_eq_some_iff.mpr h).symm.trans (decode?_eq_some_iff.mpr hpadded))
  · rintro rfl
    exact hpadded

theorem decode?_document (j : Json) : decode? j.document = some j :=
  decode?_eq_some_iff.mpr ((padded_document_iff j j).mpr rfl)

end Json

/-- **A report is read back from its text.** The text is one document and a line feed behind it. -/
theorem Response.read?_document :
    (∀ r : Report,
      (∃ doc, r.json.document = doc ++ ['\n'] ∧ doc.getLast? = some '}' ∧ r.json.Denotes doc) ∧
      (∀ j : Json, Json.Padded j.Denotes r.json.document ↔ j = r.json) ∧
      Response.read? r.json.document = some ⟨"ok".toList, schemaVersion, r, r.updated.length⟩) ∧
    Function.Injective fun r : Report => (Outcome.ofResult .json (.ok r)).output := by
  have hread : ∀ r : Report,
      Response.read? r.json.document = some ⟨"ok".toList, schemaVersion, r, r.updated.length⟩ := fun r => by
    rw [read?, Json.decode?_document, Option.bind_some, ofJson?_json]
  refine ⟨fun r => ⟨⟨r.json.pretty 0, rfl, ?_, ?_⟩, ?_, hread r⟩, ?_⟩
  · exact Json.getLast?_pretty_object ..
  · exact Json.denotes_pretty ..
  · exact fun j => Json.padded_document_iff j r.json
  · intro r r' h
    have hsame : r.json.document = r'.json.document := h
    have heq := hread r
    rw [hsame, hread r'] at heq
    exact (congrArg Response.report (Option.some.inj heq)).symm

/-- A report of a dry run, with a quote, a backslash and control characters in its texts. One hit has an empty key and
one has none. -/
def escapedReport : Report where
  root := ['a', '"', '\\']
  dryRun := true
  scanned := 2 ^ 64 - 1
  updated := [⟨['\x01', '\n'], 2, false, [⟨.equality, some [], 1⟩, ⟨.membershipList, none, 1⟩], some []⟩]
  failed := [⟨['é', '\x7f'], []⟩]

/-- It is read back, and the same report with an empty patch left out prints another text. -/
theorem Response.read?_document_escapedReport :
    Response.read? escapedReport.json.document = some ⟨"ok".toList, schemaVersion, escapedReport, 1⟩ ∧
      (Outcome.ofResult .json (.ok escapedReport)).output ≠
        (Outcome.ofResult .json
          (.ok { escapedReport with updated := escapedReport.updated.map fun f => { f with diff := none } })).output :=
  ⟨(Response.read?_document.1 escapedReport).2.2, fun h => absurd (Response.read?_document.2 h) (by decide)⟩

end Constify
