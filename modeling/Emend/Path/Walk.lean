import Emend.Host.Basic
import Emend.Path.Basic

/-!
# Walking paths

A path is walked segment by segment from a node.  At a node a name is handed to
the host.  At a sequence an index picks a node, and four names are known:
`first`, `last`, `length` and `is_empty`.  Everything else is refused, and the
refusal shows the source of what the segment met.

`Host.resolve` gives the value at the end of a path, `Host.childSpan?` its span,
and `Host.targetSpan` the span of a node or of a child that has to be there.
-/

namespace Emend

namespace Host

variable {ν : Type}

/-- The node at an index of a sequence; a negative index counts from the end. -/
def nodeAt? (ns : List ν) (i : Int) : Option ν :=
  let place := if i < 0 then (ns.length : Int) + i else i
  if place < 0 then none else ns[place.toNat]?

/-- What a name means at a sequence. -/
def sequenceChild (h : Host ν) (ns : List ν) (name : Text) : Except Error (Value ν) :=
  if name = "first".toList then .ok (.ofNode? ns.head?)
  else if name = "last".toList then .ok (.ofNode? ns.getLast?)
  else if name = "length".toList then .ok (.number ns.length)
  else if name = "is_empty".toList then .ok (.bool ns.isEmpty)
  else .error (.selector name (h.sequenceSource ns))

/-- Follow one segment from a value. -/
def step (h : Host ν) : Value ν → Token → Except Error (Value ν)
  | .node n, .name name => h.child n name
  | .node n, .index i => .error (.selector (Token.index i).display (h.sourceOf n))
  | .sequence ns, .index i =>
      match nodeAt? ns i with
      | some n => .ok (.node n)
      | none => .error (.selector (Token.index i).display (h.sequenceSource ns))
  | .sequence ns, .name name => h.sequenceChild ns name
  | .text t, token => .error (.selector token.display t)
  | value, token => .error (.selector token.display value.kindName)

/-- Follow segments in order from a value. -/
def walk (h : Host ν) : Value ν → List Token → Except Error (Value ν)
  | value, [] => .ok value
  | value, token :: tokens => do
      let next ← h.step value token
      h.walk next tokens

/-- The value at the end of a path. -/
def resolve (h : Host ν) (n : ν) (path : Path) : Except Error (Value ν) :=
  h.walk (.node n) path.tokens

/-- The span of what a path leads to, if that is there and has one. -/
def resolveSpan? (h : Host ν) (n : ν) (path : Path) : Except Error (Option Span) := do
  match ← h.resolve n path with
  | .node child => .ok (some (h.span child))
  | .sequence children => .ok (h.sequenceSpan? children)
  | .absent => .ok none
  | .text _ | .number _ | .bool _ => .error (.selector path.raw (h.sourceOf n))

/-- The span of the child at a path, given as text. -/
def childSpan? (h : Host ν) (n : ν) (path : Text) : Except Error (Option Span) := do
  h.resolveSpan? n (← Path.parse path)

/-- The span of a node, or of the child at a path, which has to be there. -/
def targetSpan (h : Host ν) (n : ν) : Option Text → Except Error Span
  | none => .ok (h.span n)
  | some path => do
      match ← h.childSpan? n path with
      | some s => .ok s
      | none => .error (.selector path (h.sourceOf n))

end Host

end Emend
