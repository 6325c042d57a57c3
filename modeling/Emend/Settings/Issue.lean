import Emend.Host.Kind
import Emend.Text.Decimal

/-!
# What is wrong with settings

An *issue* is one fault of otherwise readable settings, and a document is
refused with all its issues at once.  A *problem* is the reason why settings
could not be had at all: their file could not be read, the document is malformed,
or it has issues.  A problem names the file the settings came from, if they came
from one.
-/

namespace Emend

namespace Settings

/-- The widest tab that settings allow. -/
def maxTabWidth : Nat := 16

/-- One fault of settings. -/
inductive Issue where
  /-- No kind of host has this name. -/
  | unknownHost (name : Text)
  /-- No policy flag has this name. -/
  | unknownFlag (name : Text)
  /-- Conflicts are both to be dropped and to be refused. -/
  | opposedFlags
  /-- The tab width is out of bounds. -/
  | tabWidth (width : Int)
  /-- The settings are pinned to another kind of host. -/
  | hostMismatch (expected found : HostKind)
deriving DecidableEq, Repr

/-- The wording of an issue. -/
def Issue.message : Issue → Text
  | .unknownHost name => "unknown adapter kind '".toList ++ name ++ "'".toList
  | .unknownFlag name => "unknown strategy '".toList ++ name ++ "'".toList
  | .opposedFlags =>
      "invalid strategy combination: keep-running and throw-error cannot both be set".toList
  | .tabWidth width =>
      "tab_width must be between 1 and ".toList ++ Text.ofNat maxTabWidth ++ ", got ".toList ++
        Text.ofInt width
  | .hostMismatch expected found =>
      "config expects the '".toList ++ expected.name ++ "' adapter but the mutation uses '".toList ++
        found.name ++ "'".toList

/-- The wording of several issues, one a line. -/
def Issue.messages (issues : List Issue) : Text :=
  ['\n'].intercalate (issues.map Issue.message)

/-- Why a file gives no text. -/
inductive ReadFailure where
  /-- There is no such file. -/
  | missing
  /-- The name is that of a directory. -/
  | directory
  /-- The bytes are no UTF-8. -/
  | undecodable
deriving DecidableEq, Repr

/-- The wording of a read failure. -/
def ReadFailure.message : ReadFailure → Text
  | .missing => "No such file or directory (os error 2)".toList
  | .directory => "Is a directory (os error 21)".toList
  | .undecodable => "stream did not contain valid UTF-8".toList

/-- Why there are no settings. -/
inductive Problem where
  /-- The file could not be read. -/
  | unreadable (file : Text) (failure : ReadFailure)
  /-- The text is no settings document. -/
  | malformed (file : Option Text)
  /-- The document has issues. -/
  | rejected (file : Option Text) (issues : List Issue)
deriving DecidableEq, Repr

/-- How a problem names the file it arose in. -/
def Problem.origin : Option Text → Text
  | none => []
  | some file => " in ".toList ++ file

/-- The wording of a problem. -/
def Problem.message : Problem → Text
  | .unreadable file failure =>
      "cannot read mutation settings from ".toList ++ file ++ ": ".toList ++ failure.message
  | .malformed file =>
      "mutation settings".toList ++ Problem.origin file ++ " are not valid TOML".toList
  | .rejected file issues =>
      "mutation settings".toList ++ Problem.origin file ++ " rejected:\n".toList ++
        Issue.messages issues

end Settings

end Emend
