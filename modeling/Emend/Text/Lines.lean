import Emend.Text.Blank

/-!
# Lines

A newline ends a line.  There are two ways to cut a text at its newlines:
`lines` takes the newlines out, so that a text always has one line more than it
has newlines, and `pieces` leaves each newline at the end of its piece, so that
the pieces make up the text again and an empty text has none.
-/

namespace Emend

namespace Text

/-- The lines of a text, without their newlines. -/
def lines (t : Text) : List Text :=
  t.splitOn '\n'

/-- Lines joined by newlines. -/
def unlines (ls : List Text) : Text :=
  ['\n'].intercalate ls

/-- The lines of a text without the empty ones at its end. -/
def payloadLines (t : Text) : List Text :=
  ((t.lines).reverse.dropWhile List.isEmpty).reverse

/-- The lines of a text, each with the newline that ends it. -/
def pieces : Text → List Text
  | [] => []
  | c :: t =>
      if c = '\n' then [c] :: pieces t
      else
        match pieces t with
        | [] => [[c]]
        | p :: ps => (c :: p) :: ps

/-- What stands before the first newline. -/
def firstLine (t : Text) : Text :=
  t.takeWhile (· ≠ '\n')

/-- What stands after the last newline. -/
def lastLine (t : Text) : Text :=
  (t.reverse.takeWhile (· ≠ '\n')).reverse

/-- A line with a margin in front, unless the line is blank. -/
def indentLine (margin line : Text) : Text :=
  if line.isBlank then line else margin ++ line

/-- A line without its leading spaces and tabs, of which at most `column` go. -/
def dedentLine : Nat → Text → Text
  | 0, line => line
  | _ + 1, [] => []
  | n + 1, c :: line => if c = ' ' ∨ c = '\t' then dedentLine n line else c :: line

/-- The pieces make up the text. -/
theorem flatten_pieces (t : Text) : t.pieces.flatten = t := by
  induction t with
  | nil => rfl
  | cons c t ih =>
      rw [pieces]
      split
      next => simp [ih]
      next =>
        split
        next h => rw [h] at ih; simp at ih; simp [← ih]
        next p ps h => rw [h] at ih; simp at ih; simp [ih]

example : lines "a\n\nb\n".toList = ["a".toList, [], "b".toList, []] := by decide
example : payloadLines "a\n\nb\n\n".toList = ["a".toList, [], "b".toList] := by decide
example : payloadLines [] = [] := by decide
example : pieces "a\n\nb".toList = ["a\n".toList, "\n".toList, "b".toList] := by decide
example : lastLine "a\nbc".toList = "bc".toList := by decide
example : dedentLine 2 "   x".toList = " x".toList := by decide

end Text

end Emend
