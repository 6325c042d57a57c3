import Emend.Text.Lines

/-!
# Payloads

Code that goes into a source is laid out to fit its place.  A *statement* goes on
lines of its own at some margin, after an empty line if it has several lines.  A
*replacement* starts where the node started, so only its later lines get the
margin.  *Indentation* moves every line.  Blank lines are never padded.
-/

namespace Emend

namespace Payload

/-- Code as a statement on lines of its own. -/
def statement (margin code : Text) : Text :=
  let lines := code.payloadLines
  if 1 < lines.length then
    '\n' :: Text.unlines (lines.map (Text.indentLine margin)) ++ ['\n']
  else margin ++ code ++ ['\n']

/-- Code in place of a node that starts at a margin. -/
def replacement (margin code : Text) : Text :=
  if '\n' ∈ code then
    match code.payloadLines with
    | [] => []
    | line :: lines => Text.unlines (line :: lines.map (Text.indentLine margin))
  else code

/-- A text with a margin before every line that is not blank. -/
def indented (margin text : Text) : Text :=
  text.pieces.flatMap (Text.indentLine margin)

example : statement "  ".toList "a\n\nb\n".toList = "\n  a\n\n  b\n".toList := by decide
example : statement "  ".toList "a".toList = "  a\n".toList := by decide
example : replacement "  ".toList "a\nb\n".toList = "a\n  b".toList := by decide
example : indented "  ".toList "a\n\nb".toList = "  a\n\n  b".toList := by decide

end Payload

end Emend
