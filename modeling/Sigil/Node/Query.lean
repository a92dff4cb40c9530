import Sigil.Node.Basic

/-!
# Questions about a list of nodes

A statement is a keyword together with its operands: the siblings that follow it, up to the next
keyword among them. What stands inside a sibling bracket is passed over. The questions are total on
every list of nodes, also on one whose parents are out of order.
-/

namespace Sigil.Nodes

/-- The first node of a kind at or after an index. -/
def nextOfKind (nodes : List Node) (kind : Kind) (start : Nat) : Option Nat :=
  ((nodes.drop start).findIdx? fun node => node.kind == kind).map (start + ·)

/-- Looks through the nodes from index `i` on for the operand number `nth` of a kind, among the
children of `parent` and up to the next keyword. -/
def findOperand (parent : Option Nat) (kind : Kind) : (nth i : Nat) → List Node → Option Nat
  | _, _, [] => none
  | nth, i, node :: rest =>
    if node.parent ≠ parent then
      findOperand parent kind nth (i + 1) rest
    else if node.kind = .keyword then
      none
    else if node.kind = kind then
      match nth with
      | 0 => some i
      | nth + 1 => findOperand parent kind nth (i + 1) rest
    else
      findOperand parent kind nth (i + 1) rest

/-- The operand number `nth` of a kind that belongs to the keyword at an index. -/
def operand (nodes : List Node) (keyword : Nat) (kind : Kind) (nth : Nat) : Option Nat := do
  let node ← nodes[keyword]?
  findOperand node.parent kind nth (keyword + 1) (nodes.drop (keyword + 1))

/-- The indices of the nodes directly inside a bracket. -/
def children (nodes : List Node) (bracket : Nat) : List Nat :=
  (List.range nodes.length).filter fun i =>
    nodes[i]?.any fun node => node.parent == some bracket

/-- Follows parents, starting with `parent`, until a block is met or the chain ends. It also ends
at an index that is not below `start`, and after `links` steps; a chain without a loop has no more
links than there are nodes. -/
def chainMeetsBlock (nodes : List Node) (start : Nat) : (links : Nat) → Option Nat → Bool
  | _, none => false
  | 0, some _ => false
  | links + 1, some p =>
    match nodes[p]? with
    | none => false
    | some node =>
      if node.kind = .block then
        true
      else if p < start then
        chainMeetsBlock nodes start links node.parent
      else
        false

/-- Whether some bracket around a node is a block. -/
def withinBlock (nodes : List Node) (index : Nat) : Bool :=
  match nodes[index]? with
  | none => false
  | some node => chainMeetsBlock nodes index nodes.length node.parent

end Sigil.Nodes
