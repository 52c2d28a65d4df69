import Constify.Text.Basic

/-!
# Failures

* `ReadFault` : why a file cannot be read;
* `Failure` : why an operation fails, with its wording (`Failure.message`) and its number
  (`Failure.code`).
-/

namespace Constify

/-- Why the file system does not give the text of a file. -/
inductive ReadFault where
  | notFound
  | notDirectory
  | isDirectory
  | tooManyLinks
  | nameTooLong
  | nulCharacter
  | notUtf8
  | other (message : Text)
  deriving DecidableEq, Repr

def ReadFault.message : ReadFault → Text
  | notFound => "No such file or directory (os error 2)".toList
  | notDirectory => "Not a directory (os error 20)".toList
  | isDirectory => "Is a directory (os error 21)".toList
  | tooManyLinks => "Too many levels of symbolic links (os error 40)".toList
  | nameTooLong => "File name too long (os error 36)".toList
  | nulCharacter => "file name contained an unexpected NUL byte".toList
  | notUtf8 => "stream did not contain valid UTF-8".toList
  | other text => text

/-- Why an operation fails. -/
inductive Failure where
  | file (path cause : Text)
  | rootNotFound (path : Text)
  | settingsUnreadable (path cause : Text)
  | settingsMalformed (path reason : Text)
  | settingsInvalid (reason : Text)
  | tableSource (path reason : Text)
  | invalidArguments (reason : Text)
  | internal (reason : Text)
  deriving DecidableEq, Repr

namespace Failure

def message : Failure → Text
  | file path cause => path ++ ": ".toList ++ cause
  | rootNotFound path => "scan root not found: ".toList ++ path
  | settingsUnreadable path cause => "cannot read config ".toList ++ path ++ ": ".toList ++ cause
  | settingsMalformed path reason => "invalid config ".toList ++ path ++ ": ".toList ++ reason
  | settingsInvalid reason => "invalid config: ".toList ++ reason
  | tableSource path reason => "cannot load categories from ".toList ++ path ++ ": ".toList ++ reason
  | invalidArguments reason => "invalid arguments: ".toList ++ reason
  | internal reason => "internal error: ".toList ++ reason

/-- The number of a failure, which is also the exit code of a run that ends with it. -/
def code : Failure → Nat
  | file .. => 4
  | rootNotFound .. | settingsUnreadable .. => 3
  | settingsMalformed .. | settingsInvalid .. | tableSource .. | invalidArguments .. => 2
  | internal .. => 10

end Failure

end Constify
