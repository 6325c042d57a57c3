import Emend.Text.Decimal

/-!
# JSON

The values of JSON that answers are made of, and their compact text: no blanks,
the members of an object in the order they are listed.  In a text the quote, the
backslash and the characters below the space are escaped, five of these by a
letter.  All other characters stand for themselves.
-/

namespace Emend

/-- A value of JSON. -/
inductive Json where
  /-- The value that is none. -/
  | null
  /-- A truth value. -/
  | bool (b : Bool)
  /-- A natural number. -/
  | num (n : Nat)
  /-- A text. -/
  | str (t : Text)
  /-- A list of values. -/
  | arr (items : List Json)
  /-- Values by name. -/
  | obj (members : List (Text × Json))
deriving Repr

namespace Json

/-- How a character is written in a text. -/
def escapeChar (c : Char) : Text :=
  if c = '"' then "\\\"".toList
  else if c = '\\' then "\\\\".toList
  else if c = '\x08' then "\\b".toList
  else if c = '\x0c' then "\\f".toList
  else if c = '\n' then "\\n".toList
  else if c = '\r' then "\\r".toList
  else if c = '\t' then "\\t".toList
  else if c.toNat < 0x10 then "\\u000".toList ++ Nat.toDigits 16 c.toNat
  else if c.toNat < 0x20 then "\\u00".toList ++ Nat.toDigits 16 c.toNat
  else [c]

/-- A text between quotes. -/
def printText (t : Text) : Text :=
  '"' :: t.flatMap escapeChar ++ ['"']

mutual

/-- The text of a value. -/
def print : Json → Text
  | .null => "null".toList
  | .bool true => "true".toList
  | .bool false => "false".toList
  | .num n => Text.ofNat n
  | .str t => printText t
  | .arr items => '[' :: printItems items ++ [']']
  | .obj members => '\x7b' :: printMembers members ++ ['\x7d']

/-- The texts of values with commas in between. -/
def printItems : List Json → Text
  | [] => []
  | [v] => v.print
  | v :: vs => v.print ++ ',' :: printItems vs

/-- The texts of named values with commas in between. -/
def printMembers : List (Text × Json) → Text
  | [] => []
  | [(name, v)] => printText name ++ ':' :: v.print
  | (name, v) :: vs => printText name ++ ':' :: v.print ++ ',' :: printMembers vs

end

/-- A value that may be missing. -/
def ofOption {α : Type} (f : α → Json) : Option α → Json
  | some a => f a
  | none => .null

example : print (.obj [("a".toList, .arr [.null, .num 10]), ("b".toList, .str "\"\x01".toList)]) =
    "\x7b\"a\":[null,10],\"b\":\"\\\"\\u0001\"\x7d".toList := by decide

end Json

end Emend
