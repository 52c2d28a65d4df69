import Constify.Path
import Constify.Report.Basic

/-!
# Reports as plain text

`Report.plain` : a line for each changed file, followed by its patch in a dry run, a line for each
file that failed, an empty line and the counts.
-/

namespace Constify.Report

/-- How a report speaks of changed files. -/
def verb (r : Report) : Text := if r.dryRun then "Would update".toList else "Updated".toList

def updatedText (r : Report) (f : UpdatedFile) : Text :=
  r.verb ++ ": ".toList ++ Path.join r.root f.path ++ '\n' :: f.diff.getD []

def failedText (r : Report) (f : FailedFile) : Text :=
  "Failed: ".toList ++ Path.join r.root f.path ++ ": ".toList ++ f.error ++ ['\n']

/-- The last lines: how many files changed, and how many failed if any did. -/
def countText (r : Report) : Text :=
  r.verb ++ ' ' :: Text.ofNat r.updated.length ++ " files\n".toList ++
    if r.failed = [] then []
    else "Failed ".toList ++ Text.ofNat r.failed.length ++ " files\n".toList

def plain (r : Report) : Text :=
  r.updated.flatMap r.updatedText ++ r.failed.flatMap r.failedText ++ '\n' :: r.countText

end Constify.Report
