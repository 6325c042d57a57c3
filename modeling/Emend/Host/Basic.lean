import Emend.Error
import Emend.Host.Kind
import Emend.Position

/-!
# Hosts

A host gives access to the nodes of one source: where a node stands, which value
a name leads to from it, and which text stands for it in a template.  Everything
else in this library reaches nodes through a host.

A name may lead to a node, to a sequence of nodes, to text, to a number, to a
truth value, or to nothing, if the node could have such a child and does not.  A
name that makes no sense at a node is refused.
-/

namespace Emend

/-- What a path leads to, over nodes `ν`. -/
inductive Value (ν : Type) where
  /-- One node. -/
  | node (n : ν)
  /-- Nodes in order. -/
  | sequence (ns : List ν)
  /-- Text made from a node. -/
  | text (t : Text)
  /-- A number. -/
  | number (i : Int)
  /-- A truth value. -/
  | bool (b : Bool)
  /-- A child that is not there. -/
  | absent
deriving DecidableEq, Repr

/-- How messages name the kind of a value. -/
def Value.kindName {ν : Type} : Value ν → Text
  | .node _ => "node".toList
  | .sequence _ => "sequence".toList
  | .text _ => "text".toList
  | .number _ => "number".toList
  | .bool _ => "boolean".toList
  | .absent => "absent value".toList

/-- A node if there is one. -/
def Value.ofNode? {ν : Type} : Option ν → Value ν
  | some n => .node n
  | none => .absent

/-- A source and access to its nodes. -/
structure Host (ν : Type) where
  /-- What the nodes are. -/
  kind : HostKind
  /-- The source. -/
  source : Text
  /-- Where a node stands. -/
  span : ν → Span
  /-- What a name leads to from a node. -/
  child : ν → Text → Except Error (Value ν)
  /-- The text of a node in a template. -/
  nodeText : ν → Text := fun n => ((span n).slice? source).getD []

namespace Host

variable {ν : Type}

/-- The source at a span, empty if the span does not fit. -/
def sourceAt (h : Host ν) (s : Span) : Text :=
  (s.slice? h.source).getD []

/-- The source of a node. -/
def sourceOf (h : Host ν) (n : ν) : Text :=
  h.sourceAt (h.span n)

/-- The span from the first to the last node of a sequence. -/
def sequenceSpan? (h : Host ν) (ns : List ν) : Option Span :=
  match ns.head?, ns.getLast? with
  | some first, some last => some ((h.span first).cover (h.span last))
  | _, _ => none

/-- The source from the first to the last node of a sequence. -/
def sequenceSource (h : Host ν) (ns : List ν) : Text :=
  match h.sequenceSpan? ns with
  | some s => h.sourceAt s
  | none => []

end Host

end Emend
