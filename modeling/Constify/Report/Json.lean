import Constify.Failure
import Constify.Report.Basic

/-!
# Reports as JSON

* `Json` : the JSON values that reports are made of, objects in the order of their members;
* `Json.pretty`, `Json.document` : their text, indented by two spaces;
* `Report.json`, `Failure.json` : the answers of a run that succeeds and of one that fails.
-/

namespace Constify

/-- JSON values with natural numbers. Objects keep the order of their members. -/
inductive Json where
  | string (text : Text)
  | number (n : Nat)
  | boolean (b : Bool)
  | array (items : List Json)
  | object (members : List (Text × Json))
  deriving Repr

namespace Json

def hexDigit (n : Nat) : Char := Nat.digitChar n

/-- A character as it stands in a string: quotes, backslashes and control characters are escaped,
with the short escapes where there are any. -/
def escape (c : Char) : Text :=
  match c with
  | '"' => "\\\"".toList
  | '\\' => "\\\\".toList
  | '\x08' => "\\b".toList
  | '\x0c' => "\\f".toList
  | '\n' => "\\n".toList
  | '\r' => "\\r".toList
  | '\t' => "\\t".toList
  | c =>
    if c < ' ' then "\\u00".toList ++ [hexDigit (c.toNat / 16), hexDigit (c.toNat % 16)] else [c]

def quote (t : Text) : Text := '"' :: t.flatMap escape ++ ['"']

/-- The start of a line that is indented `depth` times. -/
def indent (depth : Nat) : Text := '\n' :: List.replicate (2 * depth) ' '

/-- Items between brackets, each on a line of its own; nothing stands between the brackets if there
are no items. -/
def bracketed (opening closing : Char) (depth : Nat) (items : List Text) : Text :=
  if items = [] then [opening, closing]
  else
    opening :: [','].intercalate (items.map fun t => indent (depth + 1) ++ t) ++ indent depth ++
      [closing]

mutual

/-- The text of a value that stands on a line indented `depth` times. -/
def pretty (depth : Nat) : Json → Text
  | string t => quote t
  | number n => Text.ofNat n
  | boolean b => if b then "true".toList else "false".toList
  | array items => bracketed '[' ']' depth (prettyItems (depth + 1) items)
  | object members => bracketed '\x7b' '\x7d' depth (prettyMembers (depth + 1) members)

def prettyItems (depth : Nat) : List Json → List Text
  | [] => []
  | j :: js => pretty depth j :: prettyItems depth js

def prettyMembers (depth : Nat) : List (Text × Json) → List Text
  | [] => []
  | (key, j) :: js => (quote key ++ ": ".toList ++ pretty depth j) :: prettyMembers depth js

end

/-- A value as a document of its own, ended by a line feed. -/
def document (j : Json) : Text := pretty 0 j ++ ['\n']

end Json

def schemaVersion : Text := "1".toList

/-- A count of substitutions. The key is left out where there is none. -/
def Hit.json (h : Hit) : Json :=
  .object <|
    [("context".toList, .string h.context.label)] ++
    (h.key.toList.map fun key => ("key".toList, .string key)) ++
    [("count".toList, .number h.count)]

/-- A changed file. The patch is left out where there is none. -/
def UpdatedFile.json (f : UpdatedFile) : Json :=
  .object <|
    [("path".toList, .string f.path), ("substitutions".toList, .number f.substitutions),
      ("import_added".toList, .boolean f.importAdded),
      ("hits".toList, .array (f.hits.map Hit.json))] ++
    f.diff.toList.map fun diff => ("diff".toList, .string diff)

def FailedFile.json (f : FailedFile) : Json :=
  .object [("path".toList, .string f.path), ("error".toList, .string f.error)]

def Report.json (r : Report) : Json :=
  .object
    [("status".toList, .string "ok".toList), ("schema_version".toList, .string schemaVersion),
      ("root".toList, .string r.root), ("dry_run".toList, .boolean r.dryRun),
      ("scanned".toList, .number r.scanned),
      ("updated".toList, .array (r.updated.map UpdatedFile.json)),
      ("failed".toList, .array (r.failed.map FailedFile.json)),
      ("updated_count".toList, .number r.updated.length)]

def Failure.json (f : Failure) : Json :=
  .object
    [("status".toList, .string "error".toList), ("schema_version".toList, .string schemaVersion),
      ("error".toList,
        .object [("code".toList, .number f.code), ("message".toList, .string f.message)])]

end Constify
