import Emend.Span

/-!
# Edits

An edit replaces the text at one span.  An edit without code leaves the text
alone and only claims its span.  The kind of an edit says which request it came
from and has no bearing on what the edit does.

A *splice* is an edit that has code: what is left of an edit once it is applied.
-/

namespace Emend

/-- Which request an edit came from. -/
inductive EditKind where
  | insert
  | append
  | prepend
  | replace
  | replaceWith
  | delete
  | remove
  | indent
  | noop
  | group
deriving DecidableEq, Repr

namespace EditKind

/-- The kinds and the names they go by. -/
def names : List (EditKind × Text) :=
  [(.insert, "insert".toList), (.append, "append".toList), (.prepend, "prepend".toList),
    (.replace, "replace".toList), (.replaceWith, "replace_with".toList),
    (.delete, "delete".toList), (.remove, "remove".toList), (.indent, "indent".toList),
    (.noop, "noop".toList), (.group, "group".toList)]

/-- The name of a kind. -/
def name (k : EditKind) : Text :=
  (names.lookup k).getD []

/-- The kind of a name. -/
def ofName? (n : Text) : Option EditKind :=
  (names.find? fun (_, m) => m = n).map Prod.fst

theorem ofName?_name (k : EditKind) : ofName? k.name = some k := by
  cases k <;> decide

end EditKind

/-- The replacement of the text at one span. -/
structure Edit where
  /-- The request the edit came from. -/
  kind : EditKind
  /-- Where the edit applies. -/
  span : Span
  /-- The new text, if the edit changes the text at all. -/
  code : Option Text
deriving DecidableEq, Repr

/-- An edit that changes text. -/
structure Splice where
  /-- Where the text is replaced. -/
  span : Span
  /-- The new text. -/
  code : Text
deriving DecidableEq, Repr

/-- What an edit does to the text, if anything. -/
def Edit.splice? (e : Edit) : Option Splice :=
  e.code.map fun code => ⟨e.span, code⟩

end Emend
