import Emend.Edit
import Emend.Error

/-!
# Applying edits

Edits are applied together.  All their spans have to fit the source, also those
of edits without code, and the first that does not is reported.  The edits with
code are then sorted by their spans.  Two that overlap are reported.  Otherwise
they are spliced in from the last to the first, so that no splice moves the text
that a later one refers to, and edits at one offset end up in their order.
-/

namespace Emend

namespace Patch

/-- The first edit whose span does not fit the source, as an error. -/
def misfit? (source : Text) (edits : List Edit) : Option Error :=
  (edits.find? fun e => !e.span.fits source).map fun e => .badSpan e.span source.size

/-- The splices of edits in the order of their spans. -/
def splices (edits : List Edit) : List Splice :=
  Span.sortOn Splice.span (edits.filterMap Edit.splice?)

/-- The first two neighbours of a list of splices that overlap, as an error. -/
def overlap? : List Splice → Option Error
  | a :: b :: l =>
      if b.span.start < a.span.stop then some (.overlap a.span b.span) else overlap? (b :: l)
  | _ => none

/-- The source with sorted splices put in from the last to the first.  No result
means that a splice met a text it does not fit. -/
def spliceAll? (source : Text) : List Splice → Option Text
  | [] => some source
  | s :: l => do
      let text ← spliceAll? source l
      text.replace? s.span.start s.span.stop s.code

/-- The source with all edits applied. -/
def apply (source : Text) (edits : List Edit) : Except Failure Text :=
  match misfit? source edits with
  | some e => .error (.refused e)
  | none =>
      match overlap? (splices edits) with
      | some e => .error (.refused e)
      | none =>
          match spliceAll? source (splices edits) with
          | some text => .ok text
          | none => .error .crashed

end Patch

end Emend
