import Sigil.Node.Basic
import Sigil.Double.Decimal

/-!
# From source text to nodes

The source is read one character at a time. At any moment the reader is inside a keyword, inside a
string, inside a run of text outside all brackets, or between nodes; and some brackets are open.

* `@` starts a keyword, which ends at a space or at a structural character.
* `"` starts and ends a string. Inside, only the next `"` has a meaning.
* Brackets open and close. A closing bracket that does not fit the innermost open one is ignored.
* Other text goes into the innermost open bracket. Outside all brackets, its runs between spaces are
  nodes of their own.
* Line ends, tabs and vertical tabs are never part of a node. They end keywords and runs.
-/

namespace Sigil

/-- What the reader of a source is inside of. -/
inductive Mode where
  | between
  | keyword
  | string
  | run
deriving DecidableEq, Repr

/-- The state of reading a source. A keyword, string or run that is being read is the last node. -/
structure Scan where
  nodes : List Node := []
  mode : Mode := .between
  /-- The kinds and indices of the open brackets, the innermost first. -/
  opened : List (Kind × Nat) := []
deriving DecidableEq, Repr

namespace Scan

/-- The characters that belong to no node and end keywords and runs, also inside a string. -/
def isBreak (c : Char) : Bool :=
  c == '\n' || c == '\t' || c == '\r' || c == '\x0b'

/-- The index of the innermost open bracket. -/
def parent (s : Scan) : Option Nat :=
  s.opened.head?.map (·.2)

/-- Starts a node in the innermost open bracket. -/
def create (kind : Kind) (mode : Mode) (s : Scan) : Scan :=
  { s with nodes := s.nodes ++ [.empty kind s.parent], mode }

/-- Adds a character to the node at an index. -/
def pushAt (index : Nat) (c : Char) (s : Scan) : Scan :=
  { s with nodes := s.nodes.modify index (Node.push c) }

/-- Adds a character to the last node. -/
def pushLast (c : Char) (s : Scan) : Scan :=
  s.pushAt (s.nodes.length - 1) c

/-- Starts a bracket node and leaves it open. -/
def openBracket (kind : Kind) (s : Scan) : Scan :=
  { s.create kind .between with opened := (kind, s.nodes.length) :: s.opened }

/-- Closes the innermost open bracket if it is of the given kind. -/
def closeBracket (kind : Kind) (s : Scan) : Scan :=
  match s.opened with
  | (k, _) :: outer => { s with mode := .between, opened := if k = kind then outer else s.opened }
  | [] => { s with mode := .between }

/-- Reads a character that is neither structural nor part of a keyword or string. -/
def plain (c : Char) (s : Scan) : Scan :=
  match s.opened with
  | (_, top) :: _ => s.pushAt top c
  | [] =>
    if c = ' ' then
      { s with mode := .between }
    else if s.mode = .run then
      s.pushLast c
    else
      (s.create .other .run).pushLast c

/-- Reads one character. -/
def step (s : Scan) (c : Char) : Scan :=
  if isBreak c then
    if s.mode = .string then s else { s with mode := .between }
  else if s.mode = .string then
    if c = '"' then { s with mode := .between } else s.pushLast c
  else if c = '{' then
    s.openBracket .block
  else if c = '(' then
    s.openBracket .paren
  else if c = '}' then
    s.closeBracket .block
  else if c = ')' then
    s.closeBracket .paren
  else if c = '"' then
    s.create .string .string
  else if c = '@' then
    s.create .keyword .keyword
  else if s.mode = .keyword then
    if c = ' ' then { s with mode := .between } else s.pushLast c
  else
    s.plain c

/-- Reads a whole text. -/
def feed (s : Scan) (source : Text) : Scan :=
  source.foldl step s

end Scan

/-- The kind of a run outside all brackets, by its text. -/
def Kind.ofRun (run : Text) : Kind :=
  if run.head? = some '[' then
    .array
  else if (Double.ofText? run).isSome then
    .number
  else
    .other

/-- Settles the kind of a run once its text is complete; other nodes stay as they are. -/
def Node.settle (node : Node) : Node :=
  if node.kind = .other then { node with kind := Kind.ofRun node.value } else node

/-- The nodes of a source text. -/
def Nodes.ofSource (source : Text) : List Node :=
  (Scan.feed {} source).nodes.map Node.settle

end Sigil
