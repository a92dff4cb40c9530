import Sigil.Text.Bytes
import Sigil.Symbol.Address

/-!
# Nodes

A script is kept as a flat list of nodes in source order. A node that stands in a bracket refers
to the bracket by its index in the list; there is no nested tree. What a node is and where it
stands, its `Shape`, never changes. Its text does: values of variables are written into it, and
then the node remembers the variable and the place of the value.
-/

namespace Sigil

/-- The kinds of nodes. -/
inductive Kind where
  /-- A word marked with `@`. -/
  | keyword
  /-- A text in double quotes. -/
  | string
  /-- A pair of curly brackets. -/
  | block
  /-- A pair of round brackets. -/
  | paren
  /-- A run outside all brackets that reads as a number. -/
  | number
  /-- A run outside all brackets that starts with a square bracket. -/
  | array
  /-- Any other run outside all brackets. -/
  | other
deriving DecidableEq, Repr

/-- The name of a kind. -/
def Kind.name : Kind → String
  | .keyword => "keyword"
  | .string => "string"
  | .block => "block"
  | .paren => "paren"
  | .number => "number"
  | .array => "array"
  | .other => "other"

/-- What a node is and where it stands. -/
structure Shape where
  kind : Kind
  /-- The index of the innermost bracket around the node. -/
  parent : Option Nat
deriving DecidableEq, Repr

/-- A node of a script. -/
structure Node extends Shape where
  value : Text
  /-- The variable whose value was written into the text last. -/
  bound : Option Address := none
  /-- The bytes of the text that hold the value of this variable. -/
  span : Option Span := none
deriving DecidableEq, Repr

namespace Node

/-- A node without text. -/
def empty (kind : Kind) (parent : Option Nat) : Node :=
  { kind, parent, value := [] }

/-- The node with a character added at the end of its text. -/
def push (c : Char) (node : Node) : Node :=
  { node with value := node.value ++ [c] }

/-- Whether the node is the keyword `word`. -/
def isWord (word : Text) (node : Node) : Bool :=
  node.kind == .keyword && node.value == word

end Node

end Sigil
