import Emend.Path.Walk
import Emend.Template.Cache

/-!
# Rendering templates

Every placeholder is replaced by the text of the value its path leads to.  A
truth value has no text.  The text of a sequence is the source from its first to
its last node.  If there are as many lines in it as nodes, and more than one, the
lines after the first lose as much of their leading blanks as stands before the
first node on its line.

A template is given as text.  `render` reads it, and `renderThrough` looks it up in
a cache, which it returns.
-/

namespace Emend

namespace Host

variable {ν : Type}

/-- The text of a sequence of nodes. -/
def sequenceText (h : Host ν) (ns : List ν) : Text :=
  let source := h.sequenceSource ns
  let count := source.pieces.length
  match h.sequenceSpan? ns with
  | none => source
  | some s =>
      if count ≤ 1 ∨ count ≠ ns.length then source
      else
        match source.lines with
        | [] => source
        | line :: lines =>
            Text.unlines (line :: lines.map (Text.dedentLine (h.source.column s.start)))

/-- The text of a value at the end of a path. -/
def valueText (h : Host ν) (path : Path) : Value ν → Except Error Text
  | .node n => .ok (h.nodeText n)
  | .sequence ns => .ok (h.sequenceText ns)
  | .text t => .ok t
  | .number i => .ok (Text.ofInt i)
  | .absent => .ok []
  | .bool b => .error (.unrenderable path.raw (Value.bool b : Value ν).kindName)

/-- The text of one part of a template at a node. -/
def segmentText (h : Host ν) (n : ν) : Segment → Except Error Text
  | .literal t => .ok t
  | .placeholder path => do
      let value ← h.resolve n path
      h.valueText path value

/-- The text of a template at a node. -/
def renderTemplate (h : Host ν) (n : ν) : Template → Except Error Text
  | [] => .ok []
  | segment :: segments => do
      let text ← h.segmentText n segment
      let rest ← h.renderTemplate n segments
      .ok (text ++ rest)

/-- The text of a template, given as text, at a node. -/
def render (h : Host ν) (n : ν) (template : Text) : Except Error Text := do
  h.renderTemplate n (← Template.parse template)

/-- The text of a template, given as text and looked up in a cache, at a node. -/
def renderThrough (h : Host ν) (c : Template.Cache) (n : ν) (template : Text) :
    Except Error Text × Template.Cache :=
  match c.get template with
  | (.ok t, c) => (h.renderTemplate n t, c)
  | (.error e, c) => (.error e, c)

end Host

end Emend
