import Emend.Text.Printable

/-!
# Quoted text

Messages show a text between double quotes.  The quote and the backslash are
escaped, NUL, tab, carriage return and newline have short escapes, and every
other character without a visible form is written as its code point in
hexadecimal between braces.
-/

namespace Emend

namespace Text

/-- How a character is written inside quotes. -/
def quotedChar (c : Char) : Text :=
  if c = '\x00' then "\\0".toList
  else if c = '\t' then "\\t".toList
  else if c = '\r' then "\\r".toList
  else if c = '\n' then "\\n".toList
  else if c = '"' then "\\\"".toList
  else if c = '\\' then "\\\\".toList
  else if isPrintable c then [c]
  else "\\u\x7b".toList ++ Nat.toDigits 16 c.toNat ++ "\x7d".toList

/-- A text between double quotes. -/
def quoted (t : Text) : Text :=
  '"' :: t.flatMap quotedChar ++ ['"']

example : quoted "a\"b\\c'\n".toList = "\"a\\\"b\\\\c'\\n\"".toList := by decide
example : quotedChar '\u00a0' = "\\u\x7ba0\x7d".toList := by decide
example : quotedChar 'é' = "é".toList := by decide +kernel

end Text

end Emend
