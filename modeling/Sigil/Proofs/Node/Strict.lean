import Mathlib.Data.Nat.PSub
import Mathlib.Tactic.Common
import Sigil.Proofs.Node.Following

/-!
# Following step by step

When a node follows a change of its variable, its text is cut at the place that it remembers, what
stands there is replaced, and a length is taken away from a position. `Node.follow` has an answer in
any case. Here the same steps are taken strictly: `Node.follow?` has no answer as soon as one of
them is impossible, because a position lies behind the end of the text or inside a code point, a
range ends before it starts, or more is taken away than there is.

No step is ever impossible, whatever place the node remembers (`Node.follow?_eq`). A place is used
only if it covers the old text, so the text can be cut there; and the occurrences in front of it
have room there (`Text.occurrences_mul_le`). This does not rest on good places: a node that follows
may come to remember one that does not lie in its text.
-/

namespace Sigil

namespace Text

variable {before s after : Text}

/-- The part of a text in front of a byte position. There is none if the text is shorter or if a
code point covers the position. -/
def front? (n : Nat) (t : Text) : Option Text :=
  (splitAtByte n t).map Prod.fst

/-- Puts a text in the place of what a span covers. There is no result if the span is not in order,
not within the text or not between code points. -/
def replaceSpan? (span : Span) (new t : Text) : Option Text :=
  if span.start ≤ span.stop then do
    let (before, rest) ← splitAtByte span.start t
    let (_, after) ← splitAtByte (span.stop - span.start) rest
    return before ++ new ++ after
  else
    none

/-- The part in front of a position where a text was put together is the first part. -/
lemma front?_append : front? (byteLength before) (before ++ after) = some before := by
  rw [front?, splitAtByte_append, Option.map_some]

/-- Where a text was put together, its middle part can be replaced. -/
lemma replaceSpan?_append (new : Text) :
    replaceSpan? ⟨byteLength before, byteLength before + byteLength s⟩ new (before ++ s ++ after) =
      some (before ++ new ++ after) := by
  simp [replaceSpan?, splitAtByte_append, List.append_assoc]

end Text

namespace Node

variable {node : Node} {before old after : Text}

/-- Follows a change of the variable that the node shows, and has no result if a step on the way is
impossible. -/
def follow? (node : Node) (old new : Text) : Option Node :=
  match node.coveringSpan old with
  | some span =>
    if old.isEmpty then do
      let value ← Text.replaceSpan? span new node.value
      return { node with value, span := some (spanAt span.start new) }
    else do
      let front ← Text.front? span.start node.value
      let before := Text.occurrences old front
      let left ← Nat.psub span.start (before * Text.byteLength old)
      return { node with
        value := Text.replace old new node.value
        span := some (spanAt (left + before * Text.byteLength new) new) }
  | none =>
    if old.isEmpty then
      some { node with value := new, span := some (spanAt 0 new) }
    else
      some { node with value := Text.replace old new node.value, span := none }

/-- A place that is used covers the old text. -/
lemma covers_of_coveringSpan {span : Span} (h : node.coveringSpan old = some span) :
    node.Covers old := by
  obtain ⟨e, covers⟩ := Option.filter_eq_some_iff.1 h
  exact covers_iff_slice.2 ⟨span, e, beq_iff_eq.1 covers⟩

/-- An empty text can be replaced at its place. -/
lemma follow?_empty (new : Text) : (node.showing before [] after).follow? [] new =
    some (node.showing before new after) := by
  have replaced : Text.replaceSpan? (spanAt (Text.byteLength before) []) new
      (node.showing before [] after).value = some (before ++ new ++ after) :=
    Text.replaceSpan?_append new
  simp only [follow?, coveringSpan_showing, List.isEmpty_nil, if_true, replaced]
  rfl

/-- The text in front of the place can be looked through, and its occurrences have room there. -/
lemma follow?_showing (ne : old ≠ []) (new : Text) :
    (node.showing before old after).follow? old new =
      some ((node.showing before old after).follow old new) := by
  have front : Text.front? (Text.byteLength before) (node.showing before old after).value =
      some before := by
    rw [showing, List.append_assoc]
    exact Text.front?_append
  have room := Nat.psub_eq_sub (Text.occurrences_mul_le old before)
  simp only [follow?, follow, coveringSpan_showing, List.isEmpty_eq_false_iff.2 ne,
    occurrencesBefore, spanAt, splitAtByte_showing, front, room, Option.bind_eq_bind,
    Option.bind_some, Bool.false_eq_true, if_false]
  rfl

/-- No step is impossible. -/
lemma follow?_eq (node : Node) (old new : Text) :
    node.follow? old new = some (node.follow old new) := by
  cases place : node.coveringSpan old with
  | none =>
    simp only [follow?, follow, place]
    split <;> rfl
  | some span =>
    obtain ⟨before, after, e⟩ := (covers_of_coveringSpan place).eq_showing
    by_cases empty : old = []
    · subst empty
      rw [e, follow?_empty, follow_empty]
    · rw [e]
      exact follow?_showing empty new

end Node

namespace Script

/-- Lets the nodes that show the variable at an address follow its change, and has no result if a
step on the way is impossible. -/
def followChange? (address : Address) (old new : Text) (s : Script) : Option Script := do
  let nodes ← s.nodes.mapM fun node =>
    if node.bound = some address then node.follow? old new else some node
  return { s with nodes }

/-- All nodes of a script can follow. -/
lemma followChange?_eq (address : Address) (old new : Text) (s : Script) :
    s.followChange? address old new = some (s.followChange address old new) := by
  have follows : (fun node : Node =>
      if node.bound = some address then node.follow? old new else some node) =
      fun node => pure (if node.bound = some address then node.follow old new else node) := by
    funext node
    split
    · exact node.follow?_eq old new
    · rfl
  rw [followChange?, follows, List.mapM_pure]
  rfl

/-- Whatever places the nodes of a script remember, a change of a variable can be followed: no cut,
no replacement and no subtraction on the way is impossible. Where a node shows the old text at its
place, the occurrences in front of the place are together not longer than what is in front of it.
Still, a node that shows a text at its place may afterwards remember a place that does not lie in
its text. -/
theorem follows_without_failing (s : Script) (address : Address) (old new : Text) :
    s.followChange? address old new = some (s.followChange address old new) ∧
    (∀ node ∈ s.nodes, ∀ span, node.coveringSpan old = some span →
      ∃ front, Text.front? span.start node.value = some front ∧
        Text.occurrences old front * Text.byteLength old ≤ span.start) ∧
    ∃ (node : Node) (shown next : Text) (span : Span), node.Covers shown ∧
      (node.follow shown next).span = some span ∧
      Text.slice span (node.follow shown next).value = none := by
  refine ⟨followChange?_eq address old new s, ?_, ?_⟩
  · intro node _ span place
    obtain ⟨before, after, value, e⟩ := Node.covers_of_coveringSpan place
    obtain rfl := Option.some.inj ((Option.filter_eq_some_iff.1 place).1.symm.trans e)
    refine ⟨before, ?_, Text.occurrences_mul_le old before⟩
    rw [value, List.append_assoc]
    exact Text.front?_append
  · -- all of `aaaa` is replaced, but the place was in the middle
    refine ⟨⟨⟨.string, none⟩, "aaaa".toList, some (.number 0), some ⟨1, 3⟩⟩, "aa".toList, [],
      ⟨1, 1⟩, ⟨['a'], ['a'], by decide, by decide⟩, by decide, by decide⟩

/-- One node shows the text at its place; the others remember a place whose ends are in the wrong
order, one that cuts a code point in two, and one behind the end. -/
theorem follows_without_failing_misplaced :
    let node (value : String) (place : Span) : Node :=
      ⟨⟨.string, none⟩, value.toList, some (.number 0), some place⟩
    let shows := node "éaéa" ⟨3, 5⟩
    let s : Script :=
      { id := 0, name := ['a'], nodes := [shows, node "é" ⟨2, 0⟩, node "é" ⟨0, 1⟩, node "é" ⟨4, 6⟩] }
    s.followChange? (.number 0) ['é'] [] = some (s.followChange (.number 0) ['é'] []) ∧
      shows.coveringSpan ['é'] = some ⟨3, 5⟩ ∧
      ∃ front, Text.front? 3 shows.value = some front ∧
        Text.occurrences ['é'] front * Text.byteLength ['é'] ≤ 3 := by
  intro node shows s
  obtain ⟨strict, room, -⟩ := follows_without_failing s (.number 0) ['é'] []
  have place : shows.coveringSpan ['é'] = some ⟨3, 5⟩ := by decide
  exact ⟨strict, place, room shows List.mem_cons_self _ place⟩

end Script

end Sigil
