import Emend.Action.Basic

/-!
# Hooks

A hook is a last chance to move edits.  It sees all edits of a forest as one list
and returns a list.  Of that list only the spans count: the first span goes to
the first edit of the forest, and so on, and the groups around them follow.
-/

namespace Emend

/-- A function on the edits of a forest. -/
abbrev Hook := List Edit → List Edit

/-- Let a hook move the edits of a forest. -/
def Action.applyHook (hook : Hook) (as : List Action) : List Action :=
  (respan as ((hook (leaves as)).map Edit.span)).1

namespace Hook

/-- Change the span of every edit. -/
def mapSpans (f : Span → Span) : Hook :=
  fun edits => edits.map fun e => { e with span := f e.span }

/-- Move every edit by a distance, and not beyond offset zero. -/
def shift (distance : Int) : Hook :=
  mapSpans fun s => ⟨((s.start : Int) + distance).toNat, ((s.stop : Int) + distance).toNat⟩

/-- Turn the order of the edits round. -/
def reverse : Hook :=
  List.reverse

end Hook

end Emend
