import Emend.Text.Mark
import Emend.Text.Unassigned

/-!
# Characters with a visible form of their own

A message shows a character as it is only if a reader can tell it by its look.
Three kinds cannot be told so: the *hidden* ones (controls, format characters,
separators, spaces other than the plain one, private use, and the four fillers
that stand for a missing letter of a syllable), the combining marks, and what
stands at an unassigned code point.  The three tables are those of Unicode 17 and
have no code point in common.
-/

namespace Emend

namespace Text

/-- The ranges of code points of hidden characters, in ascending order. -/
def hiddenRanges : List (Nat × Nat) :=
  [(0x0, 0x1f), (0x7f, 0xa0), (0xad, 0xad), (0x600, 0x605), (0x61c, 0x61c), (0x6dd, 0x6dd),
    (0x70f, 0x70f), (0x890, 0x891), (0x8e2, 0x8e2), (0x115f, 0x1160), (0x1680, 0x1680),
    (0x180e, 0x180e), (0x2000, 0x200f), (0x2028, 0x202f), (0x205f, 0x2064), (0x2066, 0x206f),
    (0x3000, 0x3000), (0x3164, 0x3164), (0xe000, 0xf8ff), (0xfeff, 0xfeff), (0xffa0, 0xffa0),
    (0xfff9, 0xfffb), (0x110bd, 0x110bd), (0x110cd, 0x110cd), (0x13430, 0x1343f),
    (0x1bca0, 0x1bca3), (0x1d173, 0x1d17a), (0xe0001, 0xe0001), (0xe0020, 0xe007f),
    (0xf0000, 0xffffd), (0x100000, 0x10fffd)]

/-- Whether a character is a hidden one. -/
def isHidden (c : Char) : Bool :=
  inRanges hiddenRanges c.toNat

/-- Whether a character is shown as it is.  Most are plain ones, between the space
and the tilde, and need no table. -/
def isPrintable (c : Char) : Bool :=
  (' ' ≤ c && c ≤ '~') || !(isHidden c || isMark c || isUnassigned c)

example : hiddenRanges.length = 31 := by decide
example : (hiddenRanges.zip hiddenRanges.tail).all
    (fun (r, s) => r.1 ≤ r.2 && r.2 + 1 < s.1) = true := by decide +kernel

end Text

end Emend
