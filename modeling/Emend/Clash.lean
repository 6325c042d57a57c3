import Emend.Action.Basic
import Emend.Policy

/-!
# Conflicts

Sorted actions are looked at from right to left.  The rightmost one is kept, and
then every one that ends no later than the last kept one starts.  All others
conflict.  Two insertions at one offset conflict too, unless the policy lets them
share it.

A group whose own edits overlap can never be applied, so it conflicts whatever
stands around it.  Edits without code do not count there.
-/

namespace Emend

namespace Clash

/-- The spans of the edits with code, from left to right. -/
def spliceSpans (as : List Action) : List Span :=
  (Action.leaves as).filterMap fun e => e.splice?.map Splice.span

/-- Whether edits inside a group overlap. -/
def isBroken : Action → Bool
  | .edit _ => false
  | .group members => Span.anyOverlap (Span.sortOn id (spliceSpans members))

/-- Whether a span cannot stand to the left of a kept one. -/
def hits (policy : Policy) (span kept : Span) : Bool :=
  kept.start < span.stop ||
    (kept.isEmpty && span.isEmpty && kept.start = span.start && !policy.shareOffsets)

/-- Whether an action conflicts, if the action last kept to its right has this
span. -/
def conflicts (policy : Policy) (a : Action) : Option Span → Bool
  | none => isBroken a
  | some kept => isBroken a || hits policy a.span kept

/-- Look at sorted actions from right to left: for each whether it conflicts, and
the span of the action kept last. -/
def scan (policy : Policy) : List Action → List Bool × Option Span
  | [] => ([], none)
  | a :: as =>
      let (marks, kept) := scan policy as
      if conflicts policy a kept then (true :: marks, kept) else (false :: marks, some a.span)

/-- For each of the sorted actions whether it conflicts. -/
def marks (policy : Policy) (as : List Action) : List Bool :=
  (scan policy as).1

/-- The indices of the actions that conflict, in ascending order. -/
def indices (policy : Policy) (as : List Action) : List Nat :=
  (marks policy as).zipIdx.filterMap fun (mark, i) => if mark then some i else none

/-- The sorted actions with this mark, in order. -/
def select (policy : Policy) (mark : Bool) (as : List Action) : List Action :=
  (as.zip (marks policy as)).filterMap fun (a, m) => if m = mark then some a else none

/-- The sorted actions that do not conflict, in order. -/
def accepted (policy : Policy) (as : List Action) : List Action :=
  select policy false as

/-- The sorted actions that conflict, in order. -/
def rejected (policy : Policy) (as : List Action) : List Action :=
  select policy true as

end Clash

end Emend
