import Mathlib.Tactic.Common
import Sigil.Script.Store
import Sigil.Proofs.Node.Filling
import Sigil.Proofs.Symbol.Table

/-!
# Nodes that follow a variable

A node that shows a variable remembers the place of the variable's text. When the text changes, all
its occurrences in the node are replaced, and the place is moved by the difference that the
occurrences in front of it make. They are counted in the part in front of the place alone, while the
search for what is to be replaced goes over the whole text. So the place is right if and only if
this search comes to it (`Node.Met`); a text that overlaps itself can be met a little earlier, and
then the old place is lost.

If the text occurs nowhere but at its place, following a change is the same as filling in the new
text from the start, and that is still so after many changes, also if the text is empty in between.
-/

namespace Sigil

namespace Node

variable {node : Node} {before old new t after : Text}

/-- The node with the text `t` between `before` and `after`, and with the place of `t`. -/
def showing (node : Node) (before t after : Text) : Node :=
  { node with value := before ++ t ++ after, span := some (spanAt (Text.byteLength before) t) }

/-- The span of the node lies in its text, between code points, and covers exactly `t`. -/
def Covers (node : Node) (t : Text) : Prop :=
  ∃ before after, node.value = before ++ t ++ after ∧
    node.span = some (spanAt (Text.byteLength before) t)

/-- A text is covered if it is what the span cuts out. -/
lemma covers_iff_slice :
    node.Covers t ↔ ∃ span, node.span = some span ∧ Text.slice span node.value = some t := by
  simp only [Text.slice_eq_some_iff]
  constructor
  · rintro ⟨before, after, value, span⟩
    exact ⟨_, span, before, after, value, rfl⟩
  · rintro ⟨_, span, before, after, value, rfl⟩
    exact ⟨before, after, value, span⟩

/-- A node that was made to show a text covers it. -/
lemma covers_showing : (node.showing before t after).Covers t :=
  ⟨before, after, rfl, rfl⟩

/-- A node that covers a text shows it between two others. -/
lemma Covers.eq_showing (h : node.Covers t) :
    ∃ before after, node = node.showing before t after := by
  obtain ⟨before, after, value, span⟩ := h
  refine ⟨before, after, ?_⟩
  rw [showing, ← value, ← span]

/-- The place of a text that is shown is found. -/
lemma coveringSpan_showing : (node.showing before t after).coveringSpan t =
    some (spanAt (Text.byteLength before) t) := by
  refine Option.filter_eq_some_iff.2 ⟨rfl, beq_iff_eq.2 ?_⟩
  exact Text.slice_eq_some_iff.2 ⟨before, after, rfl, rfl⟩

/-- The text of the node can be cut in front of the text that is shown. -/
lemma splitAtByte_showing : Text.splitAtByte (Text.byteLength before)
    (node.showing before t after).value = some (before, t ++ after) := by
  rw [showing, List.append_assoc]
  exact Text.splitAtByte_append before (t ++ after)

/-- An empty text is replaced at its place. -/
lemma follow_empty : (node.showing before [] after).follow [] new =
    node.showing before new after := by
  simp only [follow, coveringSpan_showing, List.isEmpty_nil, if_true, insertAt, spanAt,
    splitAtByte_showing]
  rfl

/-- Any other text is replaced everywhere, and the place is where the part in front of it ends, with
all replacements made that are made in this part alone. -/
lemma follow_showing (ne : old ≠ []) : (node.showing before old after).follow old new =
    { node with
      value := Text.replace old new (before ++ (old ++ after))
      span := some (spanAt (Text.byteLength (Text.replace old new before)) new) } := by
  have len : Text.byteLength (Text.replace old new before) + _ = _ :=
    Text.byteLength_replace ne before
  have room := Text.occurrences_mul_le old before
  have moved : Text.byteLength before - Text.occurrences old before * Text.byteLength old +
      Text.occurrences old before * Text.byteLength new =
      Text.byteLength (Text.replace old new before) := by omega
  simp only [follow, coveringSpan_showing, List.isEmpty_eq_false_iff.2 ne, occurrencesBefore,
    spanAt, splitAtByte_showing, moved]
  simp [showing]

/-- The search for `old` meets the occurrence that the node shows. An empty text is not searched
for. -/
def Met (node : Node) (old : Text) : Prop :=
  old = [] ∨ ∃ before after, node = node.showing before old after ∧
    Text.Passes old (old ++ after) before

/-- If the search comes to the place, the place is right. -/
lemma follow_passes (ne : old ≠ []) (passes : Text.Passes old (old ++ after) before) :
    (node.showing before old after).follow old new =
      node.showing (Text.replace old new before) new (Text.replace old new after) := by
  rw [follow_showing ne, passes.replace ne, Text.replace_append ne, ← List.append_assoc]
  rfl

/-- A text that is marked by its first character is not found again a little further on. -/
lemma marked_ne {first last before after : Text} {k : Nat}
    (further : Text.byteLength before = Text.byteLength first + (k + 1)) :
    first ++ (('b' :: List.replicate k 'a' ++ ['a']) ++ last) ≠
      before ++ ('b' :: List.replicate k 'a' ++ ['a']) ++ after := by
  intro e
  have e : (first ++ 'b' :: List.replicate k 'a') ++ 'a' :: last =
      before ++ 'b' :: (List.replicate k 'a' ++ 'a' :: after) := by
    simpa using e
  have len : Text.byteLength ('b' :: List.replicate k 'a') = k + 1 := by
    have one : 'a'.utf8Size = 1 ∧ 'b'.utf8Size = 1 := ⟨rfl, rfl⟩
    simp [one, Nat.add_comm]
  have place : first ++ 'b' :: List.replicate k 'a' = before := by
    refine Text.append_left_inj_of_byteLength e ?_
    rw [Text.byteLength_append, len, further]
  rw [place] at e
  simpa using List.append_cancel_left e

/-- If the search meets an occurrence across the place, there is a text with which the place is
wrong: what stands there is not the first character of the text, but a later one. -/
lemma exists_not_covers (ne : old ≠ []) (across : Text.Across old (old ++ after) before) :
    ∃ new, ¬ ((node.showing before old after).follow old new).Covers new := by
  obtain ⟨first, left, last, nonempty, replaced⟩ := across.replace
  obtain ⟨k, len⟩ := Nat.exists_eq_add_one.2 (Text.byteLength_pos nonempty)
  refine ⟨'b' :: List.replicate k 'a' ++ ['a'], ?_⟩
  rw [follow_showing ne, (replaced _).1, (replaced _).2]
  rintro ⟨before', after', value, span⟩
  have start : Text.byteLength (Text.replace old _ first ++ left) = Text.byteLength before' :=
    congrArg Span.start (Option.some.inj span)
  refine marked_ne ?_ value
  rw [← start, Text.byteLength_append, len]

/-- An occurrence that is covered is met by the search, or an earlier one lies across its start. -/
lemma Covers.met_or_across (covers : node.Covers old) : node.Met old ∨
    ∃ before after, node = node.showing before old after ∧ old ≠ [] ∧
      Text.Across old (old ++ after) before := by
  by_cases empty : old = []
  · exact .inl (.inl empty)
  obtain ⟨before, after, e⟩ := covers.eq_showing
  rcases Text.passes_or_across empty before (old ++ after) with passes | across
  · exact .inl (.inr ⟨before, after, e, passes⟩)
  · exact .inr ⟨before, after, e, empty, across⟩

/-- Where the search meets the place, the place is right afterwards. -/
lemma Met.follow_covers (met : node.Met old) (covers : node.Covers old) (new : Text) :
    (node.follow old new).Covers new := by
  by_cases empty : old = []
  · subst empty
    obtain ⟨before, after, e⟩ := covers.eq_showing
    rw [e, follow_empty]
    exact covers_showing
  · obtain ⟨before, after, e, passes⟩ := met.resolve_left empty
    rw [e, follow_passes empty passes]
    exact covers_showing

/-- The place stays right, whatever the new text is, if and only if the search meets it. -/
lemma follow_covers_iff (covers : node.Covers old) :
    (∀ new, (node.follow old new).Covers new) ↔ node.Met old := by
  refine ⟨fun right => ?_, fun met => met.follow_covers covers⟩
  rcases covers.met_or_across with met | ⟨before, after, e, ne, across⟩
  · exact met
  · obtain ⟨new, wrong⟩ := exists_not_covers ne across
    exact absurd (right new) (e ▸ wrong)

/-- A text of which no last part is a first part is always met. -/
lemma Covers.met (covers : node.Covers old)
    (apart : ∀ left right, old = left ++ right → left ≠ [] → right ≠ [] → ¬ right <+: old) :
    node.Met old := by
  rcases covers.met_or_across with met | ⟨before, after, _, _, across⟩
  · exact met
  · obtain ⟨_, left, right, last, _, rest, parts, nonempty, beyond, _⟩ := across
    have shorter : right.length ≤ old.length := by simp [parts]
    have found : right <+: old :=
      List.prefix_of_prefix_length_le ⟨last, rest.symm⟩ (List.prefix_append old after) shorter
    exact absurd found (apart left right parts nonempty beyond)

end Node

namespace Script

variable {s : Script} {address : Address} {i : Nat} {node : Node} {old new : Text}

/-- A node that shows the variable follows. -/
lemma getElem?_followChange (found : s.nodes[i]? = some node) (bound : node.bound = some address) :
    (s.followChange address old new).nodes[i]? = some (node.follow old new) := by
  simp [followChange, mapNodes, found, bound]

/-- A node that does not show the variable stays as it is. -/
lemma getElem?_followChange_of_ne (found : s.nodes[i]? = some node)
    (other : node.bound ≠ some address) :
    (s.followChange address old new).nodes[i]? = some node := by
  simp [followChange, mapNodes, found, other]

/-- When a variable changes, the span of a node that shows it covers the new text afterwards,
whatever the new text is, if and only if the search for the old text meets the occurrence that the
span covers. Then the node has the new text in the place of every occurrence that is met, and the
span is that of the occurrence that it covered. An old text that does not overlap itself is always
met. -/
theorem span_follows_iff (found : s.nodes[i]? = some node) (bound : node.bound = some address)
    (covers : node.Covers old) :
    ((∀ new, ∃ node', (s.followChange address old new).nodes[i]? = some node' ∧
      node'.Covers new) ↔ node.Met old) ∧
    (∀ before after, old ≠ [] → node = node.showing before old after →
      Text.Passes old (old ++ after) before →
      ∀ new, (s.followChange address old new).nodes[i]? =
        some (node.showing (Text.replace old new before) new (Text.replace old new after))) ∧
    ((∀ left right, old = left ++ right → left ≠ [] → right ≠ [] → ¬ right <+: old) →
      node.Met old) := by
  refine ⟨?_, ?_, covers.met⟩
  · rw [← Node.follow_covers_iff covers]
    simp only [getElem?_followChange found bound, Option.some.injEq, exists_eq_left']
  · intro before after ne e passes new
    rw [getElem?_followChange found bound, e, Node.follow_passes ne passes, ← e]

/-- Of three occurrences the span covers the second one, and so it does afterwards. -/
theorem span_follows_iff_second :
    let node : Node := ⟨⟨.string, none⟩, "é é-é".toList, some (.number 0), some ⟨3, 5⟩⟩
    let s : Script := { id := 0, name := ['a'], nodes := [node] }
    node.Covers ['é'] ∧ ∃ node', (s.followChange (.number 0) ['é'] ['e']).nodes[0]? = some node' ∧
      node'.value = "e e-e".toList ∧ node'.span = some ⟨2, 3⟩ ∧ node'.Covers ['e'] := by
  intro node s
  have covers : node.Covers ['é'] := ⟨"é ".toList, "-é".toList, by decide, by decide⟩
  have found : s.nodes[0]? = some node := rfl
  obtain ⟨right, -, met⟩ := span_follows_iff found rfl covers
  have apart : ∀ left right : Text, ['é'] = left ++ right → left ≠ [] → right ≠ [] →
      ¬ right <+: ['é'] := by
    intro left right parts nonempty beyond
    rcases List.append_eq_singleton_iff.1 parts.symm with ⟨e, _⟩ | ⟨_, e⟩
    · exact absurd e nonempty
    · exact absurd e beyond
  obtain ⟨node', found', covers'⟩ := right.2 (met apart) ['e']
  obtain ⟨value, span⟩ : ((s.followChange (.number 0) ['é'] ['e']).nodes[0]?.map Node.value =
      some "e e-e".toList) ∧ ((s.followChange (.number 0) ['é'] ['e']).nodes[0]?.bind Node.span =
      some ⟨2, 3⟩) := by decide
  rw [found'] at value span
  exact ⟨covers, node', found', Option.some.inj value, span, covers'⟩

/-- In `aaa` the span covers the last two characters, but the first two are replaced. The span is
moved to a place where the new text does not stand. -/
theorem span_lost_at_overlap :
    let table := ({} : Table).declare ⟨['x'], "aa".toList, .everywhere⟩
    let template : Node := ⟨⟨.string, none⟩, "a[#x]".toList, none, none⟩
    let node := template.substitute table 0
    let s : Script := { id := 0, name := ['a'], nodes := [node] }
    node.bound = some (.number 0) ∧ node.Covers "aa".toList ∧
      ∃ node', (s.followChange (.number 0) "aa".toList "b".toList).nodes[0]? = some node' ∧
        node'.value = "ba".toList ∧ node'.span = some ⟨1, 2⟩ ∧ ¬ node'.Covers "b".toList := by
  intro table template node s
  have covers : node.Covers "aa".toList := ⟨"a".toList, [], by decide, by decide⟩
  refine ⟨by decide, covers, node.follow "aa".toList "b".toList, by decide, by decide, by decide,
    ?_⟩
  rw [Node.covers_iff_slice]
  rintro ⟨span, e, covered⟩
  have place : (node.follow "aa".toList "b".toList).span = some ⟨1, 2⟩ := by decide
  cases place.symm.trans e
  revert covered
  decide

end Script

/-! ### One change after the other -/

namespace Node

variable {node : Node} {before old new t after : Text}

/-- The text is empty, or every occurrence of it in the node is the one that the span covers. -/
def ShowsOnly (node : Node) (t : Text) : Prop :=
  t = [] ∨ ∀ before after, node.value = before ++ t ++ after →
    node.span = some (spanAt (Text.byteLength before) t)

/-- It is enough to look at every position in the text. -/
lemma showsOnly_iff : node.ShowsOnly t ↔ t = [] ∨ ∀ n ≤ node.value.length,
    t <+: node.value.drop n →
      node.span = some (spanAt (Text.byteLength (node.value.take n)) t) := by
  refine or_congr_right ⟨fun only n _ => ?_, fun only before after e => ?_⟩
  · rintro ⟨after, e⟩
    refine only (node.value.take n) after ?_
    rw [List.append_assoc, e, List.take_append_drop]
  · have found := only before.length (by simp [e])
    simpa [e, List.append_assoc] using found

instance (node : Node) (t : Text) : Decidable (node.ShowsOnly t) :=
  decidable_of_iff _ showsOnly_iff.symm

/-- The node follows one change after the other, and each time it shows nothing else of the old
text. -/
def Steady : Node → Text → List Text → Prop
  | _, _, [] => True
  | node, old, new :: texts => node.ShowsOnly old ∧ Steady (node.follow old new) new texts

instance decidableSteady : ∀ node old texts, Decidable (Steady node old texts)
  | _, _, [] => .isTrue trivial
  | node, old, new :: texts =>
    have := decidableSteady (node.follow old new) new texts
    inferInstanceAs (Decidable (_ ∧ _))

/-- What is around the text does not change when the node follows. -/
lemma ShowsOnly.follow (h : (node.showing before old after).ShowsOnly old) :
    (node.showing before old after).follow old new = node.showing before new after := by
  by_cases empty : old = []
  · subst empty
    exact follow_empty
  have place : ∀ first last, before ++ (old ++ after) = first ++ (old ++ last) →
      before = first := by
    intro first last e
    have start : Text.byteLength before = Text.byteLength first := by
      rw [← List.append_assoc, ← List.append_assoc] at e
      exact congrArg Span.start (Option.some.inj (h.resolve_left empty first last e))
    exact Text.append_left_inj_of_byteLength e start
  have passes : Text.Passes old (old ++ after) before := by
    refine Text.passes_of_absent fun first last e => ?_
    rw [List.append_assoc] at e
    rw [place first last e]
  have front : ¬ old <:+: before := by
    rintro ⟨first, last, rfl⟩
    have e := place first (last ++ (old ++ after)) (by simp)
    simp [empty] at e
  have back : ¬ old <:+: after := by
    rintro ⟨first, last, rfl⟩
    have e := place (before ++ (old ++ first)) last (by simp)
    simp [empty] at e
  rw [follow_passes empty passes, Text.replace_eq_self front, Text.replace_eq_self back]

/-- The variable at the address is the last one that the table fills in. What comes out has its text
`t` between `before` and `after`. -/
def FillsLast (template : Node) (table : Table) (script : ScriptId) (address : Address)
    (before t after : Text) : Prop :=
  let site := Scope.enclosing script template.parent
  ∃ front inside back v, Piece.ofText template.value = front ++ .hole inside :: back ∧
    (front.flatMap (Piece.fill (table.meaning site))).flatMap Piece.source = before ∧
    table.resolve (Text.trim inside) site = some (address, v) ∧ Text.trim v.text = t ∧
    back.flatMap Piece.source = after ∧
    ∀ inside', .hole inside' ∈ back → table.resolve (Text.trim inside') site = none

/-- A template is filled in around the text of the variable that comes last. -/
lemma FillsLast.substitute {template : Node} {table : Table} {script : ScriptId}
    {address : Address} (h : template.FillsLast table script address before t after) :
    template.substitute table script =
      { template.showing before t after with bound := some address } := by
  obtain ⟨front, inside, back, v, pieces, rfl, found, rfl, rfl, unknown⟩ := h
  simp only [Node.substitute, Filling.ofText, pieces, Filling.foldl_filled found unknown]
  rfl

end Node

namespace Script

/-- Follows one change of the variable at an address after the other. -/
def followChanges (address : Address) : Text → List Text → Script → Script
  | _, [], s => s
  | old, new :: texts, s => (s.followChange address old new).followChanges address new texts

variable {s : Script} {address : Address} {i : Nat} {node : Node} {before first after : Text}
  {texts : List Text}

/-- A node that follows steadily shows the last text between the same two parts. -/
lemma getElem?_followChanges (found : s.nodes[i]? = some (node.showing before first after))
    (bound : node.bound = some address)
    (steady : (node.showing before first after).Steady first texts) :
    (s.followChanges address first texts).nodes[i]? =
      some (node.showing before (texts.getLastD first) after) := by
  induction texts generalizing s first with
  | nil => exact found
  | cons new texts ih =>
    obtain ⟨only, steady⟩ := steady
    rw [only.follow] at steady
    have next : (s.followChange address first new).nodes[i]? =
        some (node.showing before new after) :=
      (getElem?_followChange found bound).trans (congrArg some only.follow)
    rw [List.getLastD_cons]
    exact ih next steady

/-- A node that does not show the variable stays as it is, however often the variable changes. -/
lemma getElem?_followChanges_of_ne (found : s.nodes[i]? = some node)
    (other : node.bound ≠ some address) :
    (s.followChanges address first texts).nodes[i]? = some node := by
  induction texts generalizing s first with
  | nil => exact found
  | cons new texts ih => exact ih (getElem?_followChange_of_ne found other)

/-- Following is filling in afresh. A node shows a text between `before` and `after`. The variable
changes again and again, and at each change the old text is empty or occurs in the node at its place
only. Then the node shows the last text between `before` and `after`, and it is the node that comes
out when a template in which the variable is filled in at this place is filled in with the last
text. Nodes that do not show the variable stay as they are. -/
theorem followChanges_afresh
    (found : s.nodes[i]? = some (node.showing before first after))
    (bound : node.bound = some address)
    (steady : (node.showing before first after).Steady first texts) :
    let last := texts.getLastD first
    (s.followChanges address first texts).nodes[i]? = some (node.showing before last after) ∧
    (∀ (template : Node) table, template.toShape = node.toShape →
      template.FillsLast table s.id address before last after →
      template.substitute table s.id = node.showing before last after) ∧
    ∀ (j : Nat) other, s.nodes[j]? = some other → other.bound ≠ some address →
      (s.followChanges address first texts).nodes[j]? = some other := by
  intro last
  refine ⟨getElem?_followChanges found bound steady, ?_,
    fun j other found => getElem?_followChanges_of_ne found⟩
  intro template table shape fills
  rw [fills.substitute, ← bound, Node.showing, Node.showing, shape]

/-- A text gives way to the empty one, and this one to other texts; another node that has the first
text by chance keeps it. -/
theorem followChanges_afresh_through_empty :
    let node : Node := ⟨⟨.string, none⟩, [], some (.number 0), none⟩
    let other : Node := ⟨⟨.string, none⟩, "ab".toList, none, none⟩
    let shown := node.showing "x=".toList "ab".toList "; [#y]".toList
    let s : Script := { id := 0, name := ['a'], nodes := [shown, other] }
    let table := ({} : Table).declare ⟨['x'], " cd ".toList, .everywhere⟩
    let template : Node := ⟨⟨.string, none⟩, "x=[# x]; [#y]".toList, none, none⟩
    let s' := s.followChanges (.number 0) "ab".toList [[], ['é'], "cd".toList]
    shown.Steady "ab".toList [[], ['é'], "cd".toList] ∧
      template.FillsLast table 0 (.number 0) "x=".toList "cd".toList "; [#y]".toList ∧
      s'.nodes[0]? = some (template.substitute table 0) ∧ s'.nodes[1]? = some other := by
  intro node other shown s table template s'
  have steady : shown.Steady "ab".toList [[], ['é'], "cd".toList] := by decide
  have fills : template.FillsLast table 0 (.number 0) "x=".toList "cd".toList
      "; [#y]".toList := by
    refine ⟨"x=".toList.map .char, " x".toList, "; ".toList.map .char ++ [.hole ['y']],
      ⟨['x'], " cd ".toList, .everywhere⟩, by decide, by decide, by decide, by decide, by decide,
      ?_⟩
    intro inside mem
    have e : inside = ['y'] := by simpa using mem
    rw [e]
    decide
  have found : s.nodes[0]? = some shown := rfl
  obtain ⟨here, afresh, elsewhere⟩ := followChanges_afresh found rfl steady
  refine ⟨steady, fills, ?_, elsewhere 1 other rfl (by decide)⟩
  rw [afresh template table rfl fills]
  exact here

end Script

end Sigil
