import Emend.Host.Basic

/-!
# Tables as hosts

A table lists nodes by number, each with its span and its children.  What a name
leads to is written down in the table, and a name that is not there is refused.
Nothing ties the children of a row to its span.
-/

namespace Emend

/-- A node of a table. -/
structure Row where
  /-- Where the node stands. -/
  span : Span
  /-- What each name leads to. -/
  children : List (Text × Value Nat)
deriving Repr

namespace Host

/-- The host over the rows of a table.  A number without a row is a node without
children at the start of the source. -/
def ofTable (kind : HostKind) (source : Text) (rows : List Row) : Host Nat :=
  let row : Nat → Row := fun n => (rows[n]?).getD ⟨⟨0, 0⟩, []⟩
  { kind := kind
    source := source
    span := fun n => (row n).span
    child := fun n name =>
      match (row n).children.lookup name with
      | some value => .ok value
      | none => .error (.selector name (((row n).span.slice? source).getD [])) }

end Host

end Emend
