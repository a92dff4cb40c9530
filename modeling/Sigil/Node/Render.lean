import Sigil.Node.Basic

/-!
# From nodes to source text

Nodes are written back as a source text. A bracket is written as its own text followed by its
children, so text between children moves in front of them. Nodes that no chain of brackets ties to
the outside are not written.
-/

namespace Sigil.Nodes

/-- The nodes directly inside a bracket, or outside all brackets, with their indices. -/
def childrenOf (nodes : List Node) (parent : Option Nat) : List (Node × Nat) :=
  nodes.zipIdx.filter fun (node, _) => node.parent == parent

/-- A bracket with its text and what is written inside, if there is anything. -/
def renderBracket (first last : Char) (value : Text) (inside : Option Text) : Text :=
  first :: Text.trim value ++ (inside.elim [] fun t => ' ' :: t) ++ [last, ' ']

/-- One node, given how the children of a bracket are written. -/
def renderNode (inside : Nat → Option Text) : Node × Nat → Text
  | (node, index) =>
    match node.kind with
    | .keyword => '@' :: node.value ++ [' ']
    | .string => '"' :: node.value ++ ['"', ' ']
    | .block => renderBracket '{' '}' node.value (inside index)
    | .paren => renderBracket '(' ')' node.value (inside index)
    | .number | .array | .other => node.value ++ [' ']

/-- What stands directly in `parent`, in order. Brackets are followed `levels` deep; a chain of
brackets that starts outside has no more links than there are nodes. -/
def renderChildren (nodes : List Node) : (levels : Nat) → (parent : Option Nat) → Text
  | 0, _ => []
  | levels + 1, parent =>
    (childrenOf nodes parent).flatMap <| renderNode fun index =>
      if nodes.any fun node => node.parent == some index then
        some (renderChildren nodes levels (some index))
      else
        none

/-- A list of nodes as source text. -/
def render (nodes : List Node) : Text :=
  Text.trimEnd (renderChildren nodes (nodes.length + 1) none)

end Sigil.Nodes
