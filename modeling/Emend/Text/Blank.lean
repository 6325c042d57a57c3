import Emend.Text.Basic

/-!
# Blank characters

The blank characters are those with the Unicode property White_Space.  A text is
blank if all its characters are, and trimming drops the blank characters at the
ends of a text.
-/

namespace Emend

namespace Text

/-- The ranges of code points with the property White_Space, in ascending order. -/
def blankRanges : List (Nat × Nat) :=
  [(0x9, 0xd), (0x20, 0x20), (0x85, 0x85), (0xa0, 0xa0), (0x1680, 0x1680), (0x2000, 0x200a),
    (0x2028, 0x2029), (0x202f, 0x202f), (0x205f, 0x205f), (0x3000, 0x3000)]

/-- Whether a character has the property White_Space. -/
def isBlankChar (c : Char) : Bool :=
  inRanges blankRanges c.toNat

/-- Whether a text holds blank characters only. -/
def isBlank (t : Text) : Bool :=
  t.all isBlankChar

/-- A text without the blank characters it starts with. -/
def trimStart (t : Text) : Text :=
  t.dropWhile isBlankChar

/-- A text without the blank characters it ends in. -/
def trimEnd (t : Text) : Text :=
  t.dropTail isBlankChar

/-- A text without the blank characters at its two ends. -/
def trim (t : Text) : Text :=
  (t.trimStart).trimEnd

example : blankRanges.length = 10 := rfl
example : isBlankChar '\x0c' = true := by decide
example : isBlankChar '\u200b' = false := by decide
example : trim "\t a b\u00a0\n".toList = "a b".toList := by decide

end Text

end Emend
