import Emend.Settings.Load

/-!
# Changes of settings

Settings are changed step by step.  A change sets the policy, the tab width or the
kind of host, or it takes over the settings of a document, a text or a file.  Some
changes can be refused.  A change runs on the settings it finds, and it leaves
settings behind also if it is refused.  Texts are read by a reader that is given.
-/

namespace Emend

namespace Settings

/-- A change that is asked for. -/
inductive Change where
  /-- Another policy. -/
  | policy (policy : Policy)
  /-- Another tab width. -/
  | tabWidth (width : Nat)
  /-- The kind of host the settings are meant for. -/
  | pin (kind : HostKind)
  /-- The settings of a document. -/
  | adopt (document : Document)
  /-- The settings of a text. -/
  | load (text : Text)
  /-- The settings in a file. -/
  | loadFile (name : Text) (file : File)

/-- Put settings in place of others, if there are any. -/
def put : Except Error Settings → EStateM Error Settings Unit
  | .ok s => set s
  | .error e => throw e

namespace Change

section

variable (read : Text → Option Document)

/-- Carry out a change. -/
def run : Change → EStateM Error Settings Unit
  | .policy p => modify fun s => s.withPolicy p
  | .tabWidth width => do put ((← get).withTabWidth width)
  | .pin kind => modify fun s => s.pin kind
  | .adopt document =>
      put (document.validate.mapError fun issues => .settings (.rejected none issues))
  | .load text => put ((ofText read none text).mapError .settings)
  | .loadFile name file => put ((ofFile read name file).mapError .settings)

/-- The settings that a change leaves behind. -/
def after (s : Settings) (c : Change) : Settings :=
  match c.run read s with
  | .ok _ s => s
  | .error _ s => s

/-- The settings that several changes leave behind, one after the other. -/
def afterAll (s : Settings) (changes : List Change) : Settings :=
  changes.foldl (after read) s

end

example : (afterAll (fun _ => none) .default [.tabWidth 4, .load [], .tabWidth 17]).tabWidth = 4 :=
  by decide

end Change

end Settings

end Emend
