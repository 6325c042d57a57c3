import Emend.Text.Basic

/-!
# Conflict policies

A policy says what happens when edits conflict, and whether two insertions at one
offset do.  Its flags are independent of each other.  Only a settings document
insists that exactly one of `keepRunning` and `refuseAll` is set.
-/

namespace Emend

/-- What to do about conflicting edits. -/
structure Policy where
  /-- Drop the conflicting edits and apply the rest. -/
  keepRunning : Bool := false
  /-- Refuse to apply anything once edits conflict. -/
  refuseAll : Bool := false
  /-- Insertions at one offset do not conflict with each other. -/
  shareOffsets : Bool := false
deriving DecidableEq, Repr

namespace Policy

/-- No flag. -/
def empty : Policy := {}

/-- Conflicting edits are dropped. -/
def default : Policy := { keepRunning := true }

/-- The flags of both policies. -/
def union (p q : Policy) : Policy where
  keepRunning := p.keepRunning || q.keepRunning
  refuseAll := p.refuseAll || q.refuseAll
  shareOffsets := p.shareOffsets || q.shareOffsets

/-- The flag a settings document knows by this name. -/
def ofName? (name : Text) : Option Policy :=
  if name = "keep-running".toList then some { keepRunning := true }
  else if name = "throw-error".toList then some { refuseAll := true }
  else if name = "allow-insert-at-same-position".toList then some { shareOffsets := true }
  else none

end Policy

end Emend
