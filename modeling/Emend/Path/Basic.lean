import Emend.Error
import Emend.Text.Blank

/-!
# Paths

A path leads from a node to a value.  It is written as segments with dots in
between, such as `arguments.-1.name`, and blank characters around it do not
count.  A segment that is a decimal numeral of a signed word of 64 bits is an
index.  Any other segment is a name, made of letters, digits, underscores,
question marks and exclamation marks.  A run of digits too long for an index is
therefore a name.
-/

namespace Emend

/-- One segment of a path. -/
inductive Token where
  /-- A place in a sequence, counted from its end if it is negative. -/
  | index (i : Int)
  /-- A name that the node or the sequence knows. -/
  | name (n : Text)
deriving DecidableEq, Repr

/-- How a segment is written. -/
def Token.display : Token → Text
  | .index i => Text.ofInt i
  | .name n => n

/-- A path with its text, from which messages are made. -/
structure Path where
  /-- The text, trimmed. -/
  raw : Text
  /-- The segments. -/
  tokens : List Token
deriving DecidableEq, Repr

namespace Path

/-- Whether a character may stand in a name. -/
def isNameChar (c : Char) : Bool :=
  c.isAlphanum || c = '_' || c = '?' || c = '!'

/-- Read one segment. -/
def readToken (segment : Text) : Except PathFlaw Token :=
  if segment.isEmpty then .error .emptySegment
  else
    match Text.readInt64? segment with
    | some i => .ok (.index i)
    | none =>
        if segment.all isNameChar then .ok (.name segment) else .error (.badSegment segment)

/-- Read segments in order, up to the first that is malformed. -/
def readTokens : List Text → Except PathFlaw (List Token)
  | [] => .ok []
  | segment :: segments => do
      let token ← readToken segment
      let tokens ← readTokens segments
      .ok (token :: tokens)

/-- Read the segments of a trimmed text. -/
def readTrimmed (raw : Text) : Except PathFlaw (List Token) :=
  if raw.isEmpty then .error .blank else readTokens (raw.splitOn '.')

/-- Read a path. -/
def parse (text : Text) : Except Error Path :=
  match readTrimmed text.trim with
  | .ok tokens => .ok ⟨text.trim, tokens⟩
  | .error flaw => .error (.badPath text.trim flaw)

example : readTrimmed "arguments.-1.name".toList =
    .ok [.name "arguments".toList, .index (-1), .name "name".toList] := rfl
example : readTrimmed "a..b".toList = .error .emptySegment := rfl
example : readTrimmed "a.b()".toList = .error (.badSegment "b()".toList) := rfl

end Path

end Emend
