import Emend.Host.Basic
import Emend.Host.Literal

/-!
# Rust syntax trees as hosts

A syntax tree is given as data.  A node has a kind, a span, the field of its
parent it hangs in, and its children, of which some are only punctuation: those
are not *named*.  Comments are *extra*, since they may stand anywhere.

A name leads from a node, in this order, to

* the children in the field of that name, if the grammar has such a field: to
  nothing, one node or several.  A lone child that is a list leads to its
  elements;
* the punctuation `dot` or `semicolon`;
* the list in `parentheses` or `angle_brackets`, with these;
* on a struct literal, by `key_field` and `key_value`, the initializer of a key
  and its value;
* a property or a text computed from the node.

Every other name is refused.  Which names are fields is up to the grammar, and a
host is given a test for it.
-/

namespace Emend

/-- A node of a syntax tree with everything below it. -/
inductive Node where
  /-- A node: its number in the order in which the tree is written down, its kind,
  whether it is named, extra and part of a malformed region, its field, its span
  and its children. -/
  | mk (number : Nat) (kind : Text) (named extra malformed : Bool) (field : Option Text)
      (span : Span) (children : List Node)
deriving Repr

namespace Node

/-- The number of the node in its tree. -/
def number : Node → Nat
  | .mk n _ _ _ _ _ _ _ => n

/-- The kind of the node. -/
def kind : Node → Text
  | .mk _ k _ _ _ _ _ _ => k

/-- Whether the node is more than punctuation. -/
def isNamed : Node → Bool
  | .mk _ _ b _ _ _ _ _ => b

/-- Whether the node may stand anywhere. -/
def isExtra : Node → Bool
  | .mk _ _ _ b _ _ _ _ => b

/-- Whether there is a syntax error in the node. -/
def hasError : Node → Bool
  | .mk _ _ _ _ b _ _ _ => b

/-- The field of its parent that the node is in. -/
def field : Node → Option Text
  | .mk _ _ _ _ _ f _ _ => f

/-- Where the node stands. -/
def span : Node → Span
  | .mk _ _ _ _ _ _ s _ => s

/-- The children in order. -/
def children : Node → List Node
  | .mk _ _ _ _ _ _ _ ns => ns

mutual

/-- The node and all below it, parents before children. -/
def preorder : Node → List Node
  | .mk n k b x e f s ns => .mk n k b x e f s ns :: preorders ns

/-- The nodes and all below them. -/
def preorders : List Node → List Node
  | [] => []
  | n :: ns => n.preorder ++ preorders ns

end

/-- The children in a field. -/
def inField (n : Node) (name : Text) : List Node :=
  n.children.filter fun child => child.field = some name

/-- The children that are more than punctuation. -/
def namedChildren (n : Node) : List Node :=
  n.children.filter isNamed

/-- The source of a node, empty if its span does not fit. -/
def text (n : Node) (source : Text) : Text :=
  (n.span.slice? source).getD []

end Node

namespace RustTree

/-- The kinds of nodes that stand for their elements when a field leads to them. -/
def listKinds : List Text :=
  ["arguments", "parameters", "type_arguments", "type_parameters", "field_initializer_list",
    "field_declaration_list", "tuple_expression", "array_expression", "declaration_list",
    "enum_variant_list", "use_list"].map String.toList

/-- The kinds of lists in parentheses. -/
def parenthesized : List Text :=
  ["arguments", "parameters"].map String.toList

/-- The kinds of lists in angle brackets. -/
def angleBracketed : List Text :=
  ["type_arguments", "type_parameters"].map String.toList

/-- The elements of a list: its children without punctuation and comments. -/
def elements (list : Node) : List Node :=
  list.namedChildren.filter fun n => !n.isExtra

/-- What a field of a node leads to. -/
def fieldValue (n : Node) (name : Text) : Value Node :=
  match n.inField name with
  | [] => .absent
  | [child] => if child.kind ∈ listKinds then .sequence (elements child) else .node child
  | children => .sequence children

/-- The first child that is this punctuation. -/
def punctuation? (n : Node) (mark : Text) : Option Node :=
  n.children.find? fun child => !child.isNamed && child.kind = mark

/-- The first child that is a list of one of these kinds. -/
def list? (n : Node) (kinds : List Text) : Option Node :=
  n.namedChildren.find? fun child => child.kind ∈ kinds

/-- The key of an initializer of a struct literal. -/
def key? (source : Text) (init : Node) : Option Text :=
  if init.kind = "field_initializer".toList then
    (init.inField "field".toList).head?.map fun n => n.text source
  else if init.kind = "shorthand_field_initializer".toList then
    init.namedChildren.head?.map fun n => n.text source
  else none

/-- The initializer of a key in a struct literal. -/
def initializer? (source : Text) (n : Node) (key : Text) : Option Node := do
  let body ← (n.inField "body".toList).head?
  body.namedChildren.find? fun init => key? source init = some key

/-- The value of a key in a struct literal. -/
def initialValue? (source : Text) (n : Node) (key : Text) : Option Node := do
  let init ← initializer? source n key
  if init.kind = "field_initializer".toList then (init.inField "value".toList).head?
  else init.namedChildren.head?

/-- A name without an ending. -/
def stripEnding? (ending name : Text) : Option Text :=
  if ending <:+ name then some (name.take (name.length - ending.length)) else none

/-- What a name leads to on a struct literal: an initializer or its value. -/
def structValue? (source : Text) (n : Node) (name : Text) : Option (Value Node) :=
  if n.kind = "struct_expression".toList then
    match stripEnding? "_field".toList name, stripEnding? "_value".toList name with
    | some key, _ => some (.ofNode? (initializer? source n key))
    | none, some key => some (.ofNode? (initialValue? source n key))
    | none, none => none
  else none

/-- A literal as a string literal. -/
def stringLiteral? (kind text : Text) : Option Text :=
  if kind = "string_literal".toList then some text
  else if kind = "char_literal".toList then Literal.stringOfChar? text
  else none

/-- A literal as a raw string literal. -/
def rawLiteral? (kind text : Text) : Option Text :=
  if kind = "raw_string_literal".toList then some text
  else if kind = "string_literal".toList then Literal.rawOfString? text
  else none

/-- What a name leads to that is computed from a node alone. -/
def computed? (source : Text) (n : Node) (name : Text) : Option (Value Node) :=
  if name = "kind".toList then some (.text n.kind)
  else if name = "has_error".toList then some (.bool n.hasError)
  else if name = "to_string_literal".toList then
    (stringLiteral? n.kind (n.text source)).map .text
  else if name = "to_raw_string".toList then (rawLiteral? n.kind (n.text source)).map .text
  else if name = "strip_curly_braces".toList then some (.text (Literal.stripBraces (n.text source)))
  else if name = "wrap_curly_braces".toList then some (.text (Literal.wrapBraces (n.text source)))
  else none

/-- What a name leads to from a node.  The grammar tells whether a name is that of a
field. -/
def child (isField : Text → Bool) (source : Text) (n : Node) (name : Text) :
    Except Error (Value Node) :=
  if isField name then .ok (fieldValue n name)
  else if name = "dot".toList then .ok (.ofNode? (punctuation? n ".".toList))
  else if name = "semicolon".toList then .ok (.ofNode? (punctuation? n ";".toList))
  else if name = "parentheses".toList then .ok (.ofNode? (list? n parenthesized))
  else if name = "angle_brackets".toList then .ok (.ofNode? (list? n angleBracketed))
  else
    match structValue? source n name with
    | some value => .ok value
    | none =>
        match computed? source n name with
        | some value => .ok value
        | none => .error (.selector name (n.text source))

/-- The text of a node in a template.  Closure parameters stand without their
bars. -/
def nodeText (source : Text) (n : Node) : Text :=
  if n.kind = "closure_parameters".toList then Literal.stripBars (n.text source)
  else n.text source

end RustTree

namespace Host

/-- The host over the nodes of a Rust syntax tree, in a grammar with these fields. -/
def ofRustTree (isField : Text → Bool) (source : Text) : Host Node where
  kind := .rustTree
  source := source
  span := Node.span
  child := RustTree.child isField source
  nodeText := RustTree.nodeText source

end Host

end Emend
