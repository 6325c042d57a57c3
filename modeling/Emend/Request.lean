import Emend.Edit
import Emend.Payload
import Emend.Region
import Emend.Template.Render

/-!
# Requests

A request asks for one edit at a node.  It becomes an edit at once: first its
span is computed, then its code, and the first error of the two is reported.
Code is a template, rendered at the node.

* `append` and `prepend` put a statement into a block, before its last line or
  after its first.
* `insert` puts code before or after the node or one of its children, with a
  comma in between if asked.
* `delete` takes children out, those that are there.
* `remove` takes the node out, with its lines if it stands alone on them.
* `replace` puts code in place of children, which all have to be there.
* `replaceWith` puts code in place of the node.
* `indent` moves the lines of the node by a number of tabs.
* `noop` changes nothing and claims the node.
-/

namespace Emend

/-- An end of a span. -/
inductive Side where
  /-- Before its first byte. -/
  | beginning
  /-- After its last byte. -/
  | ending
deriving DecidableEq, Repr

/-- What is asked of a node. -/
inductive Request (ν : Type) where
  /-- A statement at the end of the node's block. -/
  | append (node : ν) (code : Text)
  /-- A statement at the start of the node's block. -/
  | prepend (node : ν) (code : Text)
  /-- Code next to the node, or to the child at a path. -/
  | insert (node : ν) (code : Text) (side : Side) (target : Option Text) (comma : Bool)
  /-- Children to be taken out. -/
  | delete (node : ν) (selectors : List Text) (comma : Bool)
  /-- The node to be taken out. -/
  | remove (node : ν) (comma : Bool)
  /-- Code in place of children. -/
  | replace (node : ν) (selectors : List Text) (code : Text)
  /-- Code in place of the node. -/
  | replaceWith (node : ν) (code : Text)
  /-- The node to be indented by a number of tabs. -/
  | indent (node : ν) (level : Nat)
  /-- Nothing to be changed. -/
  | noop (node : ν)
deriving Repr

namespace Request

variable {ν : Type}

/-- The kind of the edit that is asked for. -/
def kind : Request ν → EditKind
  | .append .. => .append
  | .prepend .. => .prepend
  | .insert .. => .insert
  | .delete .. => .delete
  | .remove .. => .remove
  | .replace .. => .replace
  | .replaceWith .. => .replaceWith
  | .indent .. => .indent
  | .noop .. => .noop

/-! ## Spans -/

/-- Where the last line of a node starts, or the node itself if it has one line. -/
def appendOffset (h : Host ν) (n : ν) : Nat :=
  (h.span n).stop - (h.sourceOf n).lastLine.size

/-- Where the second line of a node starts, or the end of a node of one line. -/
def prependOffset (h : Host ν) (n : ν) : Nat :=
  let source := h.sourceOf n
  if '\n' ∈ source then (h.span n).start + source.firstLine.size + 1 else (h.span n).stop

/-- The least span around the children at some paths.  All have to be there, and
there has to be one. -/
def replacedSpan (h : Host ν) (n : ν) (selectors : List Text) : Except Error Span := do
  let spans ← selectors.mapM fun selector => h.targetSpan n (some selector)
  match Span.hull? spans with
  | some s => .ok s
  | none => .error (.selector [] (h.sourceOf n))

/-- The least span around those children at some paths that are there.  One has to
be. -/
def deletedSpan (h : Host ν) (n : ν) (selectors : List Text) : Except Error Span := do
  let spans ← selectors.mapM (h.childSpan? n)
  match Span.hull? (spans.filterMap id) with
  | some s => .ok s
  | none => .error (.selector (", ".toList.intercalate selectors) (h.sourceOf n))

/-- A computed region, or a breakdown. -/
def regionOr : Option Span → Except Failure Span
  | some s => .ok s
  | none => .error .crashed

/-- The span of the edit that is asked for. -/
def span (h : Host ν) : Request ν → Except Failure Span
  | .append n _ => .ok (.point (appendOffset h n))
  | .prepend n _ => .ok (.point (prependOffset h n))
  | .insert n _ side target _ => do
      let s ← Failure.lift (h.targetSpan n target)
      match side with
      | .beginning => .ok (.point s.start)
      | .ending => .ok (.point s.stop)
  | .delete n selectors comma => do
      let s ← Failure.lift (deletedSpan h n selectors)
      regionOr (Region.deletion? comma h.source s)
  | .remove n comma => regionOr (Region.removal? comma h.source (h.span n))
  | .replace n selectors _ => Failure.lift (replacedSpan h n selectors)
  | .replaceWith n _ => .ok (h.span n)
  | .indent n _ => .ok (h.span n)
  | .noop n => .ok (h.span n)

/-! ## Code -/

/-- The spaces before a node on its line, and more of them. -/
def margin (h : Host ν) (n : ν) (more : Nat) : Text :=
  Text.spaces (h.source.column (h.span n).start + more)

/-- Code with a comma towards its target. -/
def withComma (side : Side) (code : Text) : Text :=
  match side with
  | .beginning => code ++ ", ".toList
  | .ending => ", ".toList ++ code

/-- The code of the edit that is asked for, with tabs of this width. -/
def code (h : Host ν) (tabWidth : Nat) : Request ν → Except Error (Option Text)
  | .append n code | .prepend n code => do
      let code ← h.render n code
      .ok (some (Payload.statement (margin h n tabWidth) code))
  | .insert n code side _ comma => do
      let code ← h.render n code
      .ok (some (if comma then withComma side code else code))
  | .delete .. => .ok (some [])
  | .remove .. => .ok (some [])
  | .replace n _ code => do
      let code ← h.render n code
      .ok (some code)
  | .replaceWith n code => do
      let code ← h.render n code
      .ok (some (Payload.replacement (margin h n 0) code))
  | .indent n level =>
      .ok (some (Payload.indented (Text.spaces (tabWidth * level)) (h.sourceOf n)))
  | .noop _ => .ok none

/-- The edit that is asked for. -/
def edit (h : Host ν) (tabWidth : Nat) (r : Request ν) : Except Failure Edit := do
  let span ← r.span h
  let code ← Failure.lift (r.code h tabWidth)
  .ok ⟨r.kind, span, code⟩

end Request

end Emend
