import Emend.Text.Lines

/-!
# Positions

A position is a line, counted from one, and a column, counted in bytes from
zero.  `Text.position` walks a text and counts a byte offset down as it goes.  An
offset inside a character is a column inside it, and an offset past the end is
the end.
-/

namespace Emend

/-- A line and a column. -/
structure Position where
  /-- The line, counted from one. -/
  line : Nat
  /-- The bytes before the position on its line. -/
  column : Nat
deriving DecidableEq, Repr, Inhabited

namespace Position

/-- Where a text starts. -/
def origin : Position := ⟨1, 0⟩

/-- The position `n` bytes after `p`, if the text starts at `p`. -/
def walk (p : Position) : Text → Nat → Position
  | _, 0 => p
  | [], _ + 1 => p
  | c :: t, n + 1 =>
      if c = '\n' then walk ⟨p.line + 1, 0⟩ t n
      else if c.utf8Size ≤ n + 1 then
        walk ⟨p.line, p.column + c.utf8Size⟩ t (n + 1 - c.utf8Size)
      else ⟨p.line, p.column + (n + 1)⟩

end Position

/-- The position of a byte offset. -/
def Text.position (t : Text) (n : Nat) : Position :=
  Position.origin.walk t n

/-- The column of a byte offset. -/
def Text.column (t : Text) (n : Nat) : Nat :=
  (t.position n).column

example : Text.position "é b\nc".toList 1 = ⟨1, 1⟩ := by decide
example : Text.position "é b\nc".toList 6 = ⟨2, 1⟩ := by decide
example : Text.position "é b\nc".toList 99 = ⟨2, 1⟩ := by decide

end Emend
