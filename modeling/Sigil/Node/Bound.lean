import Sigil.Node.Basic
import Sigil.Text.Occurrence

/-!
# Nodes that show a variable

When a variable changes, the nodes that show it follow. The old text is replaced wherever it
occurs in the node; an empty old text occurs nowhere in particular, so there the recorded span is
used. The span is kept in step as long as it really covers the old text.
-/

namespace Sigil.Node

/-- The span of a node, provided that it covers exactly the given text. -/
def coveringSpan (node : Node) (t : Text) : Option Span :=
  node.span.filter fun span => Text.slice span node.value == some t

/-- The span of a text that begins at a byte. -/
def spanAt (start : Nat) (t : Text) : Span :=
  ⟨start, start + Text.byteLength t⟩

/-- The text of a node with `new` put in at a byte position. -/
def insertAt (node : Node) (start : Nat) (new : Text) : Text :=
  match Text.splitAtByte start node.value with
  | some (before, after) => before ++ new ++ after
  | none => node.value

/-- The number of occurrences of a text that end at or before a byte position. -/
def occurrencesBefore (node : Node) (start : Nat) (t : Text) : Nat :=
  match Text.splitAtByte start node.value with
  | some (before, _) => Text.occurrences t before
  | none => 0

/-- Follows a change of the variable that the node shows. -/
def follow (node : Node) (old new : Text) : Node :=
  match node.coveringSpan old with
  | some span =>
    if old.isEmpty then
      { node with
        value := node.insertAt span.start new
        span := some (spanAt span.start new) }
    else
      let before := node.occurrencesBefore span.start old
      let start := span.start - before * Text.byteLength old + before * Text.byteLength new
      { node with
        value := Text.replace old new node.value
        span := some (spanAt start new) }
  | none =>
    if old.isEmpty then
      { node with value := new, span := some (spanAt 0 new) }
    else
      { node with value := Text.replace old new node.value, span := none }

/-- Replaces the whole text of the node. -/
def overwrite (node : Node) (new : Text) : Node :=
  { node with value := new, span := some (spanAt 0 new) }

end Sigil.Node
