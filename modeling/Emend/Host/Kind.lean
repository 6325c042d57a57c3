import Emend.Text.Basic

/-!
# Kinds of hosts

A host gives access to the nodes of a source.  Settings may be pinned to one kind
of host, which they name.
-/

namespace Emend

/-- What the nodes of a host are. -/
inductive HostKind where
  /-- Nodes of a Rust syntax tree. -/
  | rustTree
  /-- Bare spans of the source. -/
  | span
deriving DecidableEq, Repr

namespace HostKind

/-- The name of a kind of host in settings and messages. -/
def name : HostKind → Text
  | .rustTree => "tree-sitter-rust".toList
  | .span => "span".toList

/-- The kind of host of a name. -/
def ofName? (n : Text) : Option HostKind :=
  if n = HostKind.rustTree.name then some .rustTree
  else if n = HostKind.span.name then some .span
  else none

end HostKind

end Emend
