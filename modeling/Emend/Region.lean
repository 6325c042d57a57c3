import Emend.Position
import Emend.Span

/-!
# Regions around a span

A span that is taken out of a source takes more with it: a comma next to it, the
spaces after it, and, if nothing else stands on its lines, those lines.

* `overSpaces` widens a span over the spaces that follow.
* `overComma?` widens it over one comma: the one after it, if only spaces stand
  before that, else the one before it, over blanks and line ends.
* `removal?` is all that goes with a node.  If the node stands alone on its
  lines, the lines go with it.  Of two empty lines around them one goes too.

Two of these look at the text next to a bound.  They have no result if that bound
lies outside the text, and `removal?` has none either if it lies inside a
character.
-/

namespace Emend

namespace Region

/-- The number of spaces from an offset on. -/
def spacesAt (source : Text) (n : Nat) : Nat :=
  match source.drop? n with
  | some rest => (rest.takeWhile (· = ' ')).length
  | none => 0

/-- A span with the spaces after it. -/
def overSpaces (source : Text) (s : Span) : Span :=
  ⟨s.start, s.stop + spacesAt source s.stop⟩

/-- Whether a character may stand between a comma and what follows it. -/
def isGap (c : Char) : Bool :=
  c = ' ' || c = '\t' || c = '\n' || c = '\r'

/-- A span with the comma before it, if there is one. -/
def overCommaBefore? (source : Text) (s : Span) : Option Span :=
  match source.take? s.start with
  | some before =>
      let kept := before.dropTail isGap
      if kept.getLast? = some ',' then some ⟨kept.size - 1, s.stop⟩ else some s
  | none => if s.start ≤ source.size then some s else none

/-- A span with one comma next to it, if there is one. -/
def overComma? (source : Text) (s : Span) : Option Span :=
  let stop := s.stop + spacesAt source s.stop
  if source.charAt? stop = some ',' then some ⟨s.start, stop + 1⟩
  else overCommaBefore? source s

/-- A span with one comma next to it, if one is asked for. -/
def overCommaIf? (comma : Bool) (source : Text) (s : Span) : Option Span :=
  if comma then overComma? source s else some s

/-- Whole lines with the newline that ends them, or, at the end of the source, the
one before them. -/
def withNewline (source : Text) (lines : Span) : Span :=
  if lines.stop < source.size then ⟨lines.start, lines.stop + 1⟩
  else if 0 < lines.start then ⟨lines.start - 1, lines.stop⟩
  else lines

/-- Whether the lines of a node have an empty line, or the start of the source,
before them and an empty line after them.  Empty lines at the end of the source
do not count. -/
def isIsolated (source : Text) (node : Span) : Bool :=
  let lines := source.payloadLines
  let first := (source.position node.start).line
  let last := (source.position node.stop).line
  1 < lines.length && (first = 1 || lines[first - 2]? = some []) && lines[last]? = some []

/-- Whole lines of a node, with the empty line after them if they stand between
two. -/
def squeeze (source : Text) (node lines : Span) : Span :=
  if isIsolated source node && source.charAt? lines.stop = some '\n' then
    ⟨lines.start, lines.stop + 1⟩
  else lines

/-- All that goes when a node is removed. -/
def removal? (comma : Bool) (source : Text) (node : Span) : Option Span := do
  let s := overSpaces source (← overCommaIf? comma source node)
  let before ← source.take? s.start
  let after ← source.drop? s.stop
  let lines : Span := ⟨s.start - before.lastLine.size, s.stop + after.firstLine.size⟩
  if before.lastLine.isBlank && after.firstLine.isBlank then
    some (squeeze source node (withNewline source lines))
  else some s

/-- All that goes when the text at a span is deleted. -/
def deletion? (comma : Bool) (source : Text) (s : Span) : Option Span := do
  some (overSpaces source (← overCommaIf? comma source s))

example : overComma? "f(a, b, c)".toList ⟨5, 6⟩ = some ⟨5, 7⟩ := by decide
example : overComma? "f(a, b)".toList ⟨5, 6⟩ = some ⟨3, 6⟩ := by decide
example : overComma? "abc".toList ⟨4, 4⟩ = none := by decide
example : removal? false "a\n\nb\n\nc\n".toList ⟨3, 4⟩ = some ⟨3, 6⟩ := by decide
example : removal? false "é".toList ⟨0, 1⟩ = none := by decide

end Region

end Emend
