import Emend.Host.Basic

/-!
# Spans as nodes

The simplest host has the spans of its source as nodes.  A span has no children,
so every name is refused.
-/

namespace Emend

namespace Host

/-- The host over the spans of a source. -/
def ofSpans (source : Text) : Host Span where
  kind := .span
  source := source
  span := id
  child := fun s name => .error (.selector name ((s.slice? source).getD []))

end Host

end Emend
