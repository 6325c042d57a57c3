import Emend.Error
import Emend.Policy

/-!
# Settings

Settings hold a conflict policy, the width of a tab, and the kind of host they
are meant for, if they are meant for one.  The width is set by checked operations
only, and one that fails leaves no settings behind.
-/

namespace Emend

/-- How a session works. -/
structure Settings where
  /-- What to do about conflicts. -/
  policy : Policy
  /-- The number of spaces of one level of indentation. -/
  tabWidth : Nat
  /-- The kind of host the settings are meant for, if any. -/
  host : Option HostKind
deriving DecidableEq, Repr

namespace Settings

/-- The settings of a session that is told nothing. -/
def default : Settings := ⟨.default, 2, none⟩

/-- The refusal of settings for one issue. -/
def refusal (issue : Issue) : Error :=
  .settings (.rejected none [issue])

/-- The settings with another policy. -/
def withPolicy (s : Settings) (policy : Policy) : Settings :=
  { s with policy := policy }

/-- The settings with another tab width, which has to be in bounds.  The refusal of
a width beyond every signed word of 64 bits names the largest one. -/
def withTabWidth (s : Settings) (width : Nat) : Except Error Settings :=
  if 1 ≤ width ∧ width ≤ maxTabWidth then .ok { s with tabWidth := width }
  else .error (refusal (.tabWidth (min (width : Int) Text.maxInt64)))

/-- The settings meant for one kind of host. -/
def pin (s : Settings) (kind : HostKind) : Settings :=
  { s with host := some kind }

/-- What is wrong with using the settings with a kind of host, if anything. -/
def mismatch? (s : Settings) (kind : HostKind) : Option Error :=
  match s.host with
  | some expected => if expected = kind then none else some (refusal (.hostMismatch expected kind))
  | none => none

end Settings

end Emend
