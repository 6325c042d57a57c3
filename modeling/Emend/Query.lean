import Emend.Span
import Emend.Text.Decimal

/-!
# Query results

A structural query finds places in a tree.  It has a list of names, and a *match* is
what it found in one place: captured nodes, each with the index of its name in that
list, in the order they were found.  One name may come several times.

A *finding* is a match by name.  For each name it has the node that was captured
last, and its span goes around all captured nodes.  A match that captured nothing
is no finding.
-/

namespace Emend

namespace Query

/-- Why a query gives no unique finding, or a finding no node. -/
inductive Miss where
  /-- There is no finding. -/
  | noMatch
  /-- There are several findings. -/
  | ambiguous (count : Nat)
  /-- Nothing was captured under this name. -/
  | noCapture (name : Text)
deriving DecidableEq, Repr

/-- The wording of a miss. -/
def Miss.message : Miss → Text
  | .noMatch => "query matched 0 locations".toList
  | .ambiguous count =>
      "query matched ".toList ++ Text.ofNat count ++ " locations, expected exactly 1".toList
  | .noCapture name => "capture '".toList ++ name ++ "' not found in query matches".toList

/-- A match by name. -/
structure Finding (ν : Type) where
  /-- The least span around all captured nodes. -/
  span : Span
  /-- For each name the node captured last. -/
  captures : List (Text × ν)
deriving Repr

variable {ν : Type}

/-- Put a node under a name, in place of the one that is there. -/
def rebind (captures : List (Text × ν)) (name : Text) (n : ν) : List (Text × ν) :=
  captures.filter (fun c => c.1 ≠ name) ++ [(name, n)]

/-- The finding of a match, by the names of the query. -/
def finding? (names : List Text) (span : ν → Span) (found : List (Fin names.length × ν)) :
    Option (Finding ν) :=
  (Span.hull? (found.map fun c => span c.2)).map fun s =>
    ⟨s, found.foldl (fun captures c => rebind captures (names.get c.1) c.2) []⟩

/-- The findings of matches. -/
def findAll (names : List Text) (span : ν → Span) (found : List (List (Fin names.length × ν))) :
    List (Finding ν) :=
  found.filterMap (finding? names span)

/-- The node of a finding under a name. -/
def Finding.capture (f : Finding ν) (name : Text) : Except Miss ν :=
  match f.captures.lookup name with
  | some n => .ok n
  | none => .error (.noCapture name)

/-- The nodes under a name, finding by finding. -/
def captures (fs : List (Finding ν)) (name : Text) : List ν :=
  fs.filterMap fun f => f.captures.lookup name

/-- The finding, if there is exactly one. -/
def unique : List (Finding ν) → Except Miss (Finding ν)
  | [] => .error .noMatch
  | [f] => .ok f
  | fs => .error (.ambiguous fs.length)

/-! ## Query texts -/

/-- A query that is asked often, with what it asks for. -/
inductive Preset where
  /-- The function of a name. -/
  | functionByName (name : Text)
  /-- The struct of a name. -/
  | structByName (name : Text)
  /-- The implementation blocks of a type. -/
  | implByType (name : Text)
  /-- The calls of a function. -/
  | callByName (name : Text)
  /-- The calls of a method. -/
  | methodCall (name : Text)
  /-- The struct literals of a type. -/
  | structExpression (name : Text)
  /-- The bindings of a variable. -/
  | letBinding (name : Text)
  /-- All functions. -/
  | allFunctions
deriving DecidableEq, Repr

/-- The query for the nodes of a kind that have a child of a kind with this text in a
field.  The child and the node are captured. -/
def childQuery (kind field childKind childName nodeName : String) (text : Text) : Text :=
  ("(" ++ kind ++ "\n                " ++ field ++ ": (" ++ childKind ++ ") @" ++ childName ++
      "\n                (#eq? @" ++ childName ++ " \"").toList ++ text ++
    ("\")\n            ) @" ++ nodeName).toList

/-- The text of a query. -/
def Preset.text : Preset → Text
  | .functionByName name => childQuery "function_item" "name" "identifier" "name" "function" name
  | .structByName name => childQuery "struct_item" "name" "type_identifier" "name" "struct" name
  | .implByType name => childQuery "impl_item" "type" "type_identifier" "type" "impl" name
  | .callByName name => childQuery "call_expression" "function" "identifier" "name" "call" name
  | .methodCall name =>
      ("(call_expression\n                function: (field_expression\n" ++
          "                    field: (field_identifier) @method\n" ++
          "                    (#eq? @method \"").toList ++ name ++
        "\"))\n            ) @call".toList
  | .structExpression name =>
      childQuery "struct_expression" "name" "type_identifier" "name" "struct" name
  | .letBinding name => childQuery "let_declaration" "pattern" "identifier" "name" "let" name
  | .allFunctions =>
      "(function_item\n        name: (identifier) @name\n    ) @function".toList

end Query

end Emend
