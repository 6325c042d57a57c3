import Emend.Settings.Document

/-!
# Loading settings

Settings are loaded from a text, or from a file that holds one.  The format of the
text is not this library's concern: every definition here takes a *reader* as an
argument, a function that gives the document a text stands for, or nothing if the
text has no such form.  The problems of a text that is read but rejected, and of a
file that has no text, are this library's.
-/

namespace Emend

namespace Settings

section

variable (read : Text → Option Document)

/-- The settings of a text, from a file of this name if it is from one. -/
def ofText (file : Option Text) (text : Text) : Except Problem Settings :=
  match read text with
  | none => .error (.malformed file)
  | some document =>
      match document.validate with
      | .ok settings => .ok settings
      | .error issues => .error (.rejected file issues)

/-- What is found under a name. -/
inductive File where
  /-- Nothing. -/
  | missing
  /-- A directory. -/
  | directory
  /-- Bytes. -/
  | bytes (contents : ByteArray)

/-- The text of a file. -/
def File.text : File → Except ReadFailure Text
  | .missing => .error .missing
  | .directory => .error .directory
  | .bytes contents =>
      match Text.ofUTF8? contents with
      | some text => .ok text
      | none => .error .undecodable

/-- The settings in a file. -/
def ofFile (name : Text) (file : File) : Except Problem Settings :=
  match file.text with
  | .ok text => ofText read (some name) text
  | .error failure => .error (.unreadable name failure)

end

end Settings

end Emend
