import Sigil.Node.Basic
import Sigil.Symbol.Table

/-!
# Placeholders

A placeholder is a name between `[#` and the next `]`. Where the name means a variable, the
variable's text takes the placeholder's place, and the node remembers the last variable filled in
and where its text stands.
-/

namespace Sigil

/-- A piece of a text: a character that stands for itself, or a placeholder with what is written
between its marks. -/
inductive Piece where
  | char (c : Char)
  | hole (inside : Text)
deriving DecidableEq, Repr

namespace Piece

/-- The piece as it is written. -/
def source : Piece → Text
  | .char c => [c]
  | .hole inside => '[' :: '#' :: inside ++ [']']

/-- Cuts a text into pieces from left to right. The first argument is what was read since a `[#`
that is not closed yet, the latest character first. -/
def scan : (inside : Option Text) → Text → List Piece
  | none, '[' :: '#' :: rest => scan (some []) rest
  | none, c :: rest => .char c :: scan none rest
  | none, [] => []
  | some inside, ']' :: rest => .hole inside.reverse :: scan none rest
  | some inside, c :: rest => scan (some (c :: inside)) rest
  | some inside, [] => ('[' :: '#' :: inside.reverse).map .char

/-- The pieces of a text. -/
def ofText (t : Text) : List Piece :=
  scan none t

end Piece

/-- A text in which placeholders are filled in: the result so far, and the last variable filled in
with the place of its text. -/
structure Filling where
  text : Text := []
  last : Option (Address × Span) := none
deriving DecidableEq, Repr

namespace Filling

/-- Adds a piece. A placeholder whose name means nothing is copied. -/
def add (table : Table) (site : Scope) (f : Filling) : Piece → Filling
  | .char c => { f with text := f.text ++ [c] }
  | .hole inside =>
    match table.resolve (Text.trim inside) site with
    | some (address, v) =>
      let start := Text.byteLength f.text
      let text := f.text ++ Text.trim v.text
      { text, last := some (address, ⟨start, Text.byteLength text⟩) }
    | none => { f with text := f.text ++ (Piece.hole inside).source }

/-- Fills in the placeholders of a text, as seen from a site. -/
def ofText (table : Table) (site : Scope) (t : Text) : Filling :=
  (Piece.ofText t).foldl (add table site) {}

end Filling

/-- Fills in the placeholders of a node. A node in which none can be filled in stays as it is. -/
def Node.substitute (table : Table) (script : ScriptId) (node : Node) : Node :=
  let filling := Filling.ofText table (Scope.enclosing script node.parent) node.value
  match filling.last with
  | some (address, span) =>
    { node with value := filling.text, bound := some address, span := some span }
  | none => node

end Sigil
