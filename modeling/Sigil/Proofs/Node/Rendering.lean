import Mathlib.Data.List.Forall2
import Mathlib.Tactic.Common
import Sigil.Node.Render
import Sigil.Proofs.Node.Row
import Sigil.Proofs.Text.Trim

/-!
# Sources that are written back

The nodes of a source are written back as text, and the text is read again. `Row.write` writes a row
by its own structure; this is what `render` does with the flat list (`render_row`), apart from the
blanks that it drops at the end.

Reading a written row gives the same row (`feed_write`), but for the texts of its brackets: they are
trimmed when they are written, and the spaces between the nodes inside come back as part of them.
Where the end is trimmed, the last node may lose blanks (`Row.again`), and if it was a run of blanks
only, it is gone. This is the only case in which nodes get lost (`render_keeps_structure`).
-/

namespace Sigil

/-- The kinds of runs outside all brackets. -/
def Kind.IsRun (kind : Kind) : Prop :=
  kind = .number ∨ kind = .array ∨ kind = .other

/-- What is made of a run is one of the kinds of runs. -/
lemma Kind.ofRun_isRun (run : Text) : (Kind.ofRun run).IsRun := by
  unfold Kind.ofRun
  split
  · exact .inr (.inl rfl)
  · split
    · exact .inl rfl
    · exact .inr (.inr rfl)

namespace Row

/-- A row as it is written. -/
def write : Row → Text
  | nil => []
  | leaf before kind value =>
    before.write ++ Nodes.renderNode (fun _ => none) ({ kind, parent := none, value }, 0)
  | bracket before kind value inside =>
    before.write ++ Nodes.renderNode
      (fun _ => if inside.size = 0 then none else some inside.write)
      ({ kind, parent := none, value }, 0)

end Row

namespace Nodes

/-- How the children of a bracket are written, where brackets are followed so many levels deep. -/
def renderInside (nodes : List Node) (levels index : Nat) : Option Text :=
  if nodes.any fun node => node.parent == some index then
    some (renderChildren nodes levels (some index))
  else
    none

/-- The nodes directly in `parent`, in a part of a list that starts at an index. -/
def childrenFrom (start : Nat) (nodes : List Node) (parent : Option Nat) : List (Node × Nat) :=
  (nodes.zipIdx start).filter fun (node, _) => node.parent == parent

/-- Written one level deeper, the children of a bracket are written one by one. -/
lemma renderChildren_succ (nodes : List Node) (levels : Nat) (parent : Option Nat) :
    renderChildren nodes (levels + 1) parent =
      (childrenFrom 0 nodes parent).flatMap (renderNode (renderInside nodes levels)) :=
  rfl

/-- The children in a list are those in its first part and those behind. -/
lemma childrenFrom_append (start : Nat) (nodes more : List Node) (parent : Option Nat) :
    childrenFrom start (nodes ++ more) parent =
      childrenFrom start nodes parent ++ childrenFrom (start + nodes.length) more parent := by
  rw [childrenFrom, List.zipIdx_append, List.filter_append]
  rfl

/-- A list has no children of a bracket if nothing in it stands there. -/
lemma childrenFrom_eq_nil {start : Nat} {nodes : List Node} {parent : Option Nat}
    (h : ∀ node ∈ nodes, node.parent ≠ parent) : childrenFrom start nodes parent = [] := by
  refine List.filter_eq_nil_iff.2 fun pair mem => ?_
  simpa using h pair.1 (List.fst_mem_of_mem_zipIdx mem)

/-- A node that stands in the bracket is the first of its children. -/
lemma childrenFrom_cons {node : Node} {parent : Option Nat} (h : node.parent = parent)
    (start : Nat) (more : List Node) : childrenFrom start (node :: more) parent =
      (node, start) :: childrenFrom (start + 1) more parent := by
  simp [childrenFrom, List.zipIdx_cons, h]

/-- Only kind and text of a node matter to how it is written, and what is written inside. -/
lemma renderNode_congr {inside inside' : Nat → Option Text} {node node' : Node} {i i' : Nat}
    (kind : node.kind = node'.kind) (value : node.value = node'.value)
    (h : inside i = inside' i') : renderNode inside (node, i) = renderNode inside' (node', i') := by
  simp only [renderNode, kind, value, h]

/-- Something is written inside a bracket if and only if it has children. -/
lemma renderInside_eq (nodes : List Node) (levels index : Nat) :
    renderInside nodes levels index = if childrenFrom 0 nodes (some index) = [] then none
      else some (renderChildren nodes levels (some index)) := by
  have any : (nodes.any fun node => node.parent == some index) = true ↔
      childrenFrom 0 nodes (some index) ≠ [] := by
    rw [List.any_eq_true]
    constructor
    · rintro ⟨node, mem, h⟩ none
      obtain ⟨i, hi⟩ := List.getElem?_of_mem mem
      have listed : (node, i) ∈ nodes.zipIdx := List.mem_zipIdx_iff_getElem?.2 hi
      exact List.filter_eq_nil_iff.1 none (node, i) listed h
    · intro some
      obtain ⟨pair, mem⟩ := List.exists_mem_of_ne_nil _ some
      obtain ⟨listed, h⟩ := List.mem_filter.1 mem
      exact ⟨pair.1, List.fst_mem_of_mem_zipIdx listed, h⟩
  by_cases h : childrenFrom 0 nodes (some index) = []
  · rw [renderInside, if_neg (mt any.1 (not_not.2 h)), if_pos h]
  · rw [renderInside, if_pos (any.2 h), if_neg h]

/-- A row that is not empty has a node directly in what it stands in. -/
lemma childrenFrom_row {row : Row} {parent : Option Nat} {start : Nat} (h : row.size ≠ 0) :
    childrenFrom start (row.nodes parent start) parent ≠ [] := by
  cases row with
  | nil => exact absurd rfl h
  | leaf before kind value => simp [Row.nodes, childrenFrom_append, childrenFrom_cons]
  | bracket before kind value inside => simp [Row.nodes, childrenFrom_append, childrenFrom_cons]

/-- What is written inside a bracket is the row behind it, if no other node stands there. -/
lemma renderInside_row {inside : Row} {index levels : Nat} {before after : List Node}
    (length : before.length = index + 1)
    (apart : ∀ node ∈ before ++ after, node.parent ≠ some index) (enough : inside.size < levels)
    (written : ∀ levels', inside.size ≤ levels' →
      (childrenFrom (index + 1) (inside.nodes (some index) (index + 1)) (some index)).flatMap
        (renderNode (renderInside (before ++ inside.nodes (some index) (index + 1) ++ after)
          levels')) = inside.write) :
    renderInside (before ++ inside.nodes (some index) (index + 1) ++ after) levels index =
      if inside.size = 0 then none else some inside.write := by
  have front : ∀ start, childrenFrom start before (some index) = [] := fun start =>
    childrenFrom_eq_nil fun node mem => apart node (List.mem_append_left _ mem)
  have back : ∀ start, childrenFrom start after (some index) = [] := fun start =>
    childrenFrom_eq_nil fun node mem => apart node (List.mem_append_right _ mem)
  have children : childrenFrom 0 (before ++ inside.nodes (some index) (index + 1) ++ after)
      (some index) =
      childrenFrom (index + 1) (inside.nodes (some index) (index + 1)) (some index) := by
    rw [childrenFrom_append, childrenFrom_append, front, back, length, Nat.zero_add,
      List.nil_append, List.append_nil]
  rw [renderInside_eq, children]
  by_cases empty : inside.size = 0
  · cases inside with
    | nil => rfl
    | leaf => simp [Row.size] at empty
    | bracket => simp [Row.size] at empty
  · obtain ⟨levels, rfl⟩ := Nat.exists_eq_succ_of_ne_zero (Nat.ne_zero_of_lt enough)
    rw [if_neg (childrenFrom_row empty), if_neg empty, renderChildren_succ, children,
      written levels (Nat.le_of_lt_succ enough)]

/-- In the list around a row, no node stands inside the row. -/
def Apart (others : List Node) (start size : Nat) : Prop :=
  ∀ node ∈ others, ∀ p ∈ node.parent, p < start ∨ start + size ≤ p

/-- A row is written as the list in which it lies says. -/
def WritesIn (row : Row) : Prop :=
  ∀ ⦃parent : Option Nat⦄ ⦃before after : List Node⦄ ⦃start levels : Nat⦄, before.length = start →
    (∀ p ∈ parent, p < start) → Apart (before ++ after) start row.size → row.size ≤ levels →
    (childrenFrom start (row.nodes parent start) parent).flatMap
      (renderNode (renderInside (before ++ row.nodes parent start ++ after) levels)) = row.write

section
variable {first inside : Row} {parent : Option Nat} {before after : List Node} {start : Nat}

/-- Seen from the row in front of a bracket, the bracket and what it holds are apart. -/
lemma Apart.of_first (apart : Apart (before ++ after) start (first.size + 1 + inside.size))
    (hp : ∀ p ∈ parent, p < start) {node : Node} (hn : node.parent = parent) :
    Apart (before ++ (node ::
        inside.nodes (some (start + first.size)) (start + first.size + 1) ++ after))
      start first.size := by
  intro n mem p e
  simp only [List.mem_append, List.mem_cons] at mem
  obtain mem | (rfl | mem) | mem := mem
  · have := apart n (List.mem_append_left _ mem) p e
    omega
  · exact .inl (hp p (hn ▸ e))
  · obtain ⟨q, e', le⟩ := Row.le_parent mem
    cases e'.symm.trans e
    exact .inr le
  · have := apart n (List.mem_append_right _ mem) p e
    omega

/-- Nothing in front of a bracket or behind it stands inside, and neither does the bracket. -/
lemma Apart.of_inside (apart : Apart (before ++ after) start (first.size + 1 + inside.size))
    (hp : ∀ p ∈ parent, p < start) {node : Node} (hn : node.parent = parent) :
    Apart (before ++ (first.nodes parent start ++ [node]) ++ after) (start + first.size)
      (1 + inside.size) := by
  intro n mem p e
  simp only [List.mem_append, List.mem_singleton] at mem
  obtain (mem | mem | rfl) | mem := mem
  · have := apart n (List.mem_append_left _ mem) p e
    omega
  · exact .inl (Row.parent_lt hp mem e)
  · exact .inl (Nat.lt_add_right _ (hp p (hn ▸ e)))
  · have := apart n (List.mem_append_right _ mem) p e
    omega

end

/-- A bracket that comes behind a row. -/
lemma WritesIn.bracket {first inside : Row} (h : WritesIn first) (h' : WritesIn inside)
    (kind : Kind) (value : Text) : WritesIn (.bracket first kind value inside) := by
  intro parent before after start levels length hp apart enough
  simp only [Row.size] at apart enough
  let node : Node := { kind, parent, value }
  let index := start + first.size
  let inner := inside.nodes (some index) (index + 1)
  -- the list, seen from the row in front and from the row inside
  have outer : before ++ (first.nodes parent start ++ node :: inner) ++ after =
      before ++ first.nodes parent start ++ (node :: inner ++ after) := by simp
  have nested : before ++ (first.nodes parent start ++ node :: inner) ++ after =
      before ++ (first.nodes parent start ++ [node]) ++ inner ++ after := by simp
  have skipped : childrenFrom (index + 1) inner parent = [] := by
    refine childrenFrom_eq_nil fun n mem e => ?_
    obtain ⟨p, e', le⟩ := Row.le_parent mem
    have := hp p (e ▸ e')
    omega
  have children : childrenFrom start (first.nodes parent start ++ node :: inner) parent =
      childrenFrom start (first.nodes parent start) parent ++ [(node, index)] := by
    rw [childrenFrom_append, Row.length_nodes, childrenFrom_cons rfl, skipped]
  have written : (childrenFrom start (first.nodes parent start) parent).flatMap
      (renderNode (renderInside (before ++ first.nodes parent start ++ (node :: inner ++ after))
        levels)) = first.write :=
    h length hp (apart.of_first hp rfl) (by omega)
  have others := @Apart.of_inside _ _ _ _ _ _ apart hp node rfl
  have frontLength : (before ++ (first.nodes parent start ++ [node])).length = index + 1 := by
    simp [length, index, Nat.add_assoc]
  have inside : renderInside (before ++ (first.nodes parent start ++ [node]) ++ inner ++ after)
      levels index = if inside.size = 0 then none else some inside.write := by
    refine renderInside_row frontLength ?_ (by omega) fun levels' enough' => ?_
    · intro n mem e
      have := others n mem index e
      omega
    · refine h' frontLength (fun p e => Option.some.inj e ▸ Nat.lt_succ_self _) ?_ enough'
      intro n mem p e
      have := others n mem p e
      omega
  show (childrenFrom start (first.nodes parent start ++ node :: inner) parent).flatMap
    (renderNode (renderInside (before ++ (first.nodes parent start ++ node :: inner) ++ after)
      levels)) = _
  rw [children, List.flatMap_append, outer, written, ← outer, nested, List.flatMap_singleton]
  exact congrArg (first.write ++ ·) (renderNode_congr rfl rfl inside)

/-- Every row is written as the list in which it lies says. -/
lemma writesIn (row : Row) : WritesIn row := by
  induction row with
  | nil => exact fun _ _ _ _ _ _ _ _ _ => rfl
  -- a leaf is written like a bracket with nothing inside
  | leaf first kind value ih =>
    have nothing : WritesIn .nil := fun _ _ _ _ _ _ _ _ _ => rfl
    exact ih.bracket nothing kind value
  | bracket first kind value inside ih ih' => exact ih.bracket ih' kind value

/-- A run is written as its text and a space. -/
lemma renderNode_run {node : Node} (run : node.kind.IsRun) (inside : Nat → Option Text)
    (index : Nat) : renderNode inside (node, index) = node.value ++ [' '] := by
  rcases run with kind | kind | kind <;> simp only [renderNode, kind]

/-- The kinds of runs do not matter to how they are written. -/
lemma renderNode_settle (inside : Nat → Option Text) (node : Node) (index : Nat) :
    renderNode inside (node.settle, index) = renderNode inside (node, index) := by
  unfold Node.settle
  split
  · rename_i kind
    rw [renderNode_run (Kind.ofRun_isRun _), renderNode_run (.inr (.inr kind))]
  · rfl

/-- The kinds of runs do not matter to how a list is written. -/
lemma renderChildren_settle (nodes : List Node) (levels : Nat) (parent : Option Nat) :
    renderChildren (nodes.map Node.settle) levels parent = renderChildren nodes levels parent := by
  induction levels generalizing parent with
  | zero => rfl
  | succ levels ih =>
    have children : childrenFrom 0 (nodes.map Node.settle) parent =
        (childrenFrom 0 nodes parent).map (Prod.map Node.settle id) := by
      rw [childrenFrom, List.zipIdx_map, List.filter_map]
      refine congrArg _ (List.filter_congr fun pair _ => ?_)
      simp [Node.settle_parent]
    have inside : renderInside (nodes.map Node.settle) levels = renderInside nodes levels := by
      funext index
      simp only [renderInside, ih, List.any_map, Function.comp_def, Node.settle_parent]
    rw [renderChildren_succ, renderChildren_succ, children, inside, List.flatMap_map]
    exact List.flatMap_congr fun pair _ => renderNode_settle _ pair.1 pair.2

/-- The nodes of a row are rendered as the row is written, but for blanks at the end. -/
lemma render_row (row : Row) :
    render ((row.nodes none 0).map Node.settle) = Text.trimEnd row.write := by
  have written := @writesIn row none [] [] 0 row.size rfl nofun nofun (Nat.le_refl _)
  rw [List.nil_append, List.append_nil] at written
  rw [render, renderChildren_settle, List.length_map, Row.length_nodes, renderChildren_succ, written]

end Nodes

/-! ### Reading what was written -/

namespace Row

/-- The number of spaces that the bracket around a row gets from its writing. -/
def gaps : Row → Nat
  | nil => 0
  | leaf before kind _ => before.gaps + if kind = .keyword then 0 else 1
  | bracket before _ _ _ => before.gaps + 1

/-- The spaces that stand in the text of a bracket when a row was written inside. -/
def padding (inside : Row) : Text :=
  if inside.size = 0 then [] else List.replicate (inside.gaps + 1) ' '

/-- Trimming takes these spaces away again. -/
lemma trim_padding (value : Text) (inside : Row) :
    Text.trim (Text.trim value ++ inside.padding) = Text.trim value := by
  have blank : ∀ c ∈ inside.padding, Text.isBlank c = true := by
    unfold padding
    split
    · exact nofun
    · intro c mem
      rw [List.eq_of_mem_replicate mem]
      decide
  rw [Text.trim_append_blank blank, Text.trim_trim]

/-- The row as it is read when it was written. -/
def reread : Row → Row
  | nil => nil
  | leaf before kind value => leaf before.reread kind value
  | bracket before kind value inside =>
    bracket before.reread kind (Text.trim value ++ inside.padding) inside.reread

/-- A row that was read again has as many nodes as before. -/
@[simp] lemma size_reread (row : Row) : row.reread.size = row.size := by
  induction row with
  | nil => rfl
  | leaf before kind value ih => rw [reread, size, size, ih]
  | bracket before kind value inside ih ih' => rw [reread, size, size, ih, ih']

end Row

namespace Scan

/-- Spaces are added to the text of the innermost open bracket. -/
def pad (opened : List (Kind × Nat)) (n : Nat) (nodes : List Node) : List Node :=
  match opened with
  | [] => nodes
  | (_, top) :: _ =>
    nodes.modify top fun node => { node with value := node.value ++ List.replicate n ' ' }

section
variable {opened : List (Kind × Nat)} {nodes : List Node}

/-- Spaces add no nodes. -/
@[simp] lemma length_pad (opened : List (Kind × Nat)) (n : Nat) (nodes : List Node) :
    (pad opened n nodes).length = nodes.length := by
  cases opened <;> simp [pad]

/-- Nothing is added where there are no spaces. -/
lemma pad_zero (opened : List (Kind × Nat)) (nodes : List Node) : pad opened 0 nodes = nodes := by
  cases opened with
  | nil => rfl
  | cons top outer =>
    simp only [pad, List.replicate_zero, List.append_nil]
    exact List.modify_id top.2 nodes

/-- Spaces are added one behind the other. -/
lemma pad_pad (opened : List (Kind × Nat)) (m n : Nat) (nodes : List Node) :
    pad opened n (pad opened m nodes) = pad opened (m + n) nodes := by
  cases opened with
  | nil => rfl
  | cons top outer => simp [pad, List.modify_modify_eq, Function.comp_def]

/-- The nodes that come later are not padded if the innermost open bracket is among the first. -/
lemma pad_append (inRange : ∀ i ∈ innermost opened, i < nodes.length) (n : Nat)
    (more : List Node) : pad opened n (nodes ++ more) = pad opened n nodes ++ more := by
  cases opened with
  | nil => rfl
  | cons top outer =>
    have lt : top.2 < nodes.length := inRange top.2 rfl
    apply List.ext_getElem?
    intro i
    simp only [pad, List.getElem?_modify, List.getElem?_append, List.length_modify]
    by_cases h : i < nodes.length
    · simp [h]
    · have ne : top.2 ≠ i := by omega
      simp [h, ne]

/-- Where the last node is the innermost open bracket, it gets the spaces. -/
lemma pad_snoc (opened : List (Kind × Nat)) (kind : Kind) (n : Nat) (node : Node)
    (nodes : List Node) :
    pad ((kind, nodes.length) :: opened) n (nodes ++ [node]) =
      nodes ++ [{ node with value := node.value ++ List.replicate n ' ' }] := by
  unfold pad
  induction nodes with
  | nil => rfl
  | cons first nodes ih => exact congrArg (first :: ·) ih

/-- A space between nodes goes into the innermost open bracket. -/
lemma feed_gap (opened : List (Kind × Nat)) (nodes : List Node) :
    feed ⟨nodes, .between, opened⟩ [' '] = ⟨pad opened 1 nodes, .between, opened⟩ := by
  cases opened <;> rfl

/-- Every bracket has a character that opens it and one that closes it. -/
lemma exists_brackets {kind : Kind} (br : kind.IsBracket) :
    ∃ first last, Brackets kind first last := by
  rcases br with rfl | rfl
  · exact ⟨_, _, .block⟩
  · exact ⟨_, _, .paren⟩

/-- How a bracket is written, without the space behind it. -/
def writeBracket (first last : Char) (value : Text) (inside : Row) : Text :=
  first :: Text.trim value ++ (if inside.size = 0 then [] else ' ' :: inside.write) ++ [last]

/-- A bracket is written behind the row in front of it, with a space. -/
lemma write_bracket {kind : Kind} {first last : Char} (br : Brackets kind first last)
    (before : Row) (value : Text) (inside : Row) :
    (Row.bracket before kind value inside).write =
      before.write ++ writeBracket first last value inside ++ [' '] := by
  cases br <;> by_cases empty : inside.size = 0 <;>
    simp [Row.write, Nodes.renderNode, Nodes.renderBracket, writeBracket, empty]

/-- A string is written behind the row in front of it, with a space. -/
lemma write_string (before : Row) (value : Text) :
    (Row.leaf before .string value).write = before.write ++ writeString value ++ [' '] := by
  simp [Row.write, Nodes.renderNode, writeString]

/-- A run is written behind the row in front of it, with a space. -/
lemma write_run (before : Row) (value : Text) :
    (Row.leaf before .other value).write = before.write ++ value ++ [' '] := by
  simp [Row.write, Nodes.renderNode]

/-- A row is read again: the spaces between its nodes go into the bracket around it. -/
def Rereads (row : Row) (outside : Bool) : Prop :=
  ∀ ⦃nodes : List Node⦄ ⦃opened : List (Kind × Nat)⦄, opened.isEmpty = outside →
    (∀ i ∈ innermost opened, i < nodes.length) →
    feed ⟨nodes, .between, opened⟩ row.write =
      ⟨pad opened row.gaps nodes ++ row.reread.nodes (innermost opened) nodes.length,
        .between, opened⟩

/-- A bracket with a row inside, read from one end to the other. -/
lemma feed_writeBracket {kind : Kind} {first last : Char} (br : Brackets kind first last)
    {value : Text} (plain : ∀ c ∈ value, isPlain c = true) {inside : Row}
    (rereads : Rereads inside false) (opened : List (Kind × Nat)) (nodes : List Node) :
    feed ⟨nodes, .between, opened⟩ (writeBracket first last value inside) =
      ⟨nodes ++ { kind, parent := innermost opened, value := Text.trim value ++ inside.padding } ::
        inside.reread.nodes (some nodes.length) (nodes.length + 1), .between, opened⟩ := by
  have plain' : ∀ c ∈ Text.trim value, isPlain c = true :=
    fun c mem => plain c (Text.trim_subset value mem)
  have opens : feed ⟨nodes, .between, opened⟩ (first :: Text.trim value) =
      ⟨nodes ++ [{ kind, parent := innermost opened, value := Text.trim value }], .between,
        (kind, nodes.length) :: opened⟩ := by
    have start : step ⟨nodes, .between, opened⟩ first =
        openBracket kind ⟨nodes, .between, opened⟩ := by
      cases br <;> rfl
    rw [feed_cons, start]
    exact feed_inside plain'
  have closes : ∀ all, feed ⟨all, .between, (kind, nodes.length) :: opened⟩ [last] =
      ⟨all, .between, opened⟩ := by
    intro all
    cases br <;> rfl
  rw [writeBracket, feed_append, feed_append, opens, ← closes]
  congr 1
  by_cases empty : inside.size = 0
  · cases inside with
    | nil => simp [feed, Row.size, Row.padding, Row.reread, Row.nodes]
    | leaf => simp [Row.size] at empty
    | bracket => simp [Row.size] at empty
  · have space : ' ' :: inside.write = [' '] ++ inside.write := rfl
    rw [if_neg empty, space, feed_append, feed_gap, pad_snoc, rereads rfl]
    · rw [pad_snoc, Row.padding, if_neg empty]
      simp [List.replicate_succ, innermost, parent]
    · intro i mem
      cases mem
      simp

/-- A written row is read as the row that it becomes. -/
lemma feed_write {row : Row} {outside : Bool} (regular : row.Regular outside) :
    Rereads row outside := by
  induction regular with
  | nil =>
    intro nodes opened _ _
    simp [feed, Row.write, Row.gaps, Row.reread, Row.nodes, pad_zero]
  | @keyword outside before value _ text ih =>
    intro nodes opened ho inRange
    have written : (Row.leaf before .keyword value).write = before.write ++ writeWord value := rfl
    rw [written, feed_append, ih ho inRange, feed_word text]
    simp [Row.gaps, Row.reread, Row.nodes]
  | @string outside before value _ text ih =>
    intro nodes opened ho inRange
    rw [write_string, feed_append, feed_append, ih ho inRange, feed_string text, feed_gap,
      List.append_assoc, pad_append, pad_pad]
    · simp [Row.gaps, Row.reread, Row.nodes]
    · simpa using inRange
  | @run before value _ ne text ih =>
    intro nodes opened ho inRange
    obtain rfl := List.isEmpty_iff.1 ho
    rw [write_run, feed_append, feed_append, ih ho inRange, feed_run text ne, List.append_assoc]
    rfl
  | @bracket outside before kind value inside _ br plain _ ih ih' =>
    intro nodes opened ho inRange
    obtain ⟨first, last, br'⟩ := exists_brackets br
    rw [write_bracket br', feed_append, feed_append, ih ho inRange,
      feed_writeBracket br' plain ih', feed_gap, List.append_assoc, pad_append, pad_pad]
    · simp [Row.gaps, Row.reread, Row.nodes, Nat.add_comm]
    · simpa using inRange

end

end Scan

/-! ### The end of the text -/

namespace Row

/-- The row ends with a run of blanks. -/
def EndsBlank : Row → Prop
  | leaf _ .other value => ∀ c ∈ value, Text.isBlank c = true
  | _ => False

/-- The row as it is read when it was written and the blanks at the end were dropped. -/
def again : Row → Row
  | nil => nil
  | leaf before kind value =>
    if kind = .other ∧ value.all Text.isBlank then
      before.again
    else if kind = .string then
      leaf before.reread kind value
    else
      leaf before.reread kind (Text.trimEnd value)
  | bracket before kind value inside => (bracket before kind value inside).reread

/-- A row that was read again without the blanks at its end has no more nodes than before. -/
lemma size_again_le (row : Row) : row.again.size ≤ row.size := by
  induction row with
  | nil => exact Nat.le_refl _
  | leaf before kind value ih =>
    unfold again
    split
    · exact Nat.le_succ_of_le ih
    · split <;> simp [size]
  | bracket before kind value inside => exact Nat.le_of_eq (size_reread _)

/-- It has fewer nodes if the row ends with a run of blanks. -/
lemma size_again_lt {row : Row} (h : row.EndsBlank) : row.again.size < row.size := by
  cases row with
  | nil => exact h.elim
  | leaf before kind value =>
    cases kind with
    | other =>
      rw [again, if_pos ⟨rfl, List.all_eq_true.2 h⟩]
      exact Nat.lt_succ_of_le before.size_again_le
    | _ => exact h.elim
  | bracket => exact h.elim

end Row

namespace Scan

/-- A text that begins with a written row is read from that row on. -/
lemma feed_start {row : Row} (regular : row.Regular true) (rest : Text) :
    feed {} (row.write ++ rest) = feed ⟨row.reread.nodes none 0, .between, []⟩ rest := by
  rw [feed_append]
  have read := @feed_write _ _ regular [] [] rfl nofun
  exact congrArg (feed · rest) read

/-- A written row without the blanks at its end is read as the row that it becomes. -/
lemma feed_trimEnd_write {row : Row} (regular : row.Regular true) :
    (feed {} (Text.trimEnd row.write)).nodes = row.again.nodes none 0 := by
  have space : ∀ d ∈ [' '], Text.isBlank d = true := List.forall_mem_singleton.2 (by decide)
  induction row with
  | nil => rfl
  | leaf before kind value ih =>
    cases regular with
    | keyword regular text =>
      -- the `@` is visible, so blanks are lost at the end of the keyword's text only
      have visible : ¬ ∀ d ∈ '@' :: value, Text.isBlank d = true :=
        fun all => absurd (all '@' List.mem_cons_self) (by decide)
      have written : (Row.leaf before .keyword value).write =
          before.write ++ '@' :: value ++ [' '] := by simp [Row.write, Nodes.renderNode]
      have start : step ⟨before.reread.nodes none 0, .between, []⟩ '@' =
          ⟨before.reread.nodes none 0 ++ [.empty .keyword none], .keyword, []⟩ := rfl
      have text' : ∀ c ∈ Text.trimEnd value, isPlain c = true ∧ c ≠ ' ' :=
        fun c mem => text c ((List.rdropWhile_prefix _ _).subset mem)
      rw [written, Text.trimEnd_append_blank space, Text.trimEnd_append visible, feed_start regular,
        Text.trimEnd_cons (by decide), feed_cons, start, feed_keyword_rest text']
      simp [Row.again, Row.nodes, Node.empty]
    | @string _ _ _ regular text =>
      have written : (Row.leaf before .string value).write =
          before.write ++ '"' :: value ++ ['"'] ++ [' '] := by simp [Row.write, Nodes.renderNode]
      rw [written, Text.trimEnd_space (by decide), List.append_assoc, feed_start regular]
      have read := @feed_string (before.reread.nodes none 0) [] value text
      exact congrArg Scan.nodes read
    | run regular ne text =>
      rw [write_run, Text.trimEnd_append_blank space]
      -- a run of blanks is lost, and the blanks at the end of the row before it are lost too
      by_cases blank : ∀ c ∈ value, Text.isBlank c = true
      · rw [Text.trimEnd_append_blank blank, ih regular, Row.again,
          if_pos ⟨rfl, List.all_eq_true.2 blank⟩]
      · have text' : ∀ c ∈ Text.trimEnd value, isPlain c = true ∧ c ≠ ' ' :=
          fun c mem => text c ((List.rdropWhile_prefix _ _).subset mem)
        have ne' : Text.trimEnd value ≠ [] := mt Text.trimEnd_eq_nil_iff.1 blank
        rw [Text.trimEnd_append blank, feed_start regular, feed_run text' ne', Row.again,
          if_neg (by simpa using blank), if_neg Kind.noConfusion]
        rfl
  | bracket before kind value inside =>
    cases regular with
    | bracket regular br plain regular' =>
      obtain ⟨first, last, br'⟩ := exists_brackets br
      -- the closing character is visible, so nothing is lost but the space behind it
      have visible : Text.isBlank last = false := by cases br' <;> decide
      have written : Text.trimEnd (Row.bracket before kind value inside).write =
          before.write ++ writeBracket first last value inside := by
        rw [write_bracket br', writeBracket, ← List.append_assoc, Text.trimEnd_space visible]
      rw [written, feed_start regular, feed_writeBracket br' plain (feed_write regular')]
      simp [Row.again, Row.reread, Row.nodes, innermost, parent]

end Scan

/-! ### What is kept -/

/-- Two nodes differ at most in the blanks around their texts; as strings they do not differ. -/
structure Node.Alike (a b : Node) : Prop where
  kind : a.kind = b.kind
  parent : a.parent = b.parent
  trim : Text.trim a.value = Text.trim b.value
  string : b.kind = .string → a.value = b.value

/-- The last node is a run outside all brackets, and only of blanks. -/
def Nodes.EndBlank (nodes : List Node) : Prop :=
  ∃ node, nodes.getLast? = some node ∧ node.kind.IsRun ∧ node.parent = none ∧
    ∀ c ∈ node.value, Text.isBlank c = true

/-- Every node is like itself. -/
lemma Node.Alike.refl (node : Node) : node.Alike node :=
  ⟨rfl, rfl, rfl, fun _ => rfl⟩

/-- The kind of a run does not depend on the blanks at its end. -/
lemma Kind.ofRun_trimEnd {run : Text} (h : Text.trimEnd run ≠ []) :
    Kind.ofRun (Text.trimEnd run) = Kind.ofRun run := by
  have number : Double.ofText? (Text.trimEnd run) = Double.ofText? run := by
    rw [Double.ofText?, Text.trim_trimEnd, Double.ofText?]
  rw [Kind.ofRun, Kind.ofRun, Text.head?_trimEnd h, number]

namespace Row

/-- The nodes of two rows, once the kinds of runs are settled, differ only in blanks. -/
def Alike (a b : Row) (parent : Option Nat) (start : Nat) : Prop :=
  List.Forall₂ Node.Alike ((a.nodes parent start).map Node.settle)
    ((b.nodes parent start).map Node.settle)

variable {before before' : Row} {kind : Kind} {value value' : Text} {parent : Option Nat}
  {start : Nat}

/-- A leaf like another one, behind a row like another one, makes rows that are alike. -/
lemma Alike.leaf (h : before.Alike before' parent start)
    (h' : (Node.settle { kind, parent, value }).Alike (Node.settle { kind, parent, value := value' })) :
    Alike (.leaf before kind value) (.leaf before' kind value') parent start := by
  simp only [Alike, nodes, List.map_append, List.map_singleton]
  exact List.rel_append h (.cons h' .nil)

/-- A row that was read again is like the row before. -/
lemma reread_alike {row : Row} {outside : Bool} (regular : row.Regular outside)
    (parent : Option Nat) (start : Nat) : row.reread.Alike row parent start := by
  induction regular generalizing parent start with
  | nil => exact .nil
  | keyword _ _ ih => exact (ih parent start).leaf (.refl _)
  | string _ _ ih => exact (ih parent start).leaf (.refl _)
  | run _ _ _ ih => exact (ih parent start).leaf (.refl _)
  | @bracket _ before kind value inside _ br _ _ ih ih' =>
    have settled : ∀ value, Node.settle { kind, parent, value } = { kind, parent, value } := by
      intro value
      rcases br with rfl | rfl <;> rfl
    simp only [Alike, reread, nodes, List.map_append, List.map_cons, settled, size_reread]
    refine List.rel_append (ih parent start)
      (.cons ⟨rfl, rfl, trim_padding value inside, fun string => ?_⟩ (ih' _ _))
    rcases br with e | e <;> cases e.symm.trans string

/-- If no run of blanks comes last, every node is kept. -/
lemma again_alike {row : Row} (regular : row.Regular true) (h : ¬ row.EndsBlank) :
    row.again.Alike row none 0 := by
  cases regular with
  | nil => exact .nil
  | @keyword _ before value regular =>
    refine (reread_alike regular none 0).leaf ?_
    exact ⟨rfl, rfl, Text.trim_trimEnd value, nofun⟩
  | string regular => exact (reread_alike regular none 0).leaf (.refl _)
  | @run before value regular =>
    have visible : ¬ value.all Text.isBlank = true := fun all => h (List.all_eq_true.1 all)
    have ne : Text.trimEnd value ≠ [] := mt Text.trimEnd_eq_nil_iff.1 h
    rw [again, if_neg (fun both => visible both.2), if_neg nofun]
    refine (reread_alike regular none 0).leaf ⟨?_, rfl, Text.trim_trimEnd value, ?_⟩
    · exact Kind.ofRun_trimEnd ne
    · intro string
      rcases Kind.ofRun_isRun value with e | e | e <;> cases e.symm.trans string
  | bracket regular br plain regular' =>
    exact reread_alike (.bracket regular br plain regular') none 0

/-- The list of nodes shows whether the row ends with a run of blanks. -/
lemma endBlank_iff {row : Row} (regular : row.Regular true) :
    Nodes.EndBlank ((row.nodes none 0).map Node.settle) ↔ row.EndsBlank := by
  -- a leaf comes last itself
  have leaf : ∀ before kind value,
      (((Row.leaf before kind value).nodes none 0).map Node.settle).getLast? =
        some (Node.settle { kind, parent := none, value }) := by
    intro before kind value
    simp [nodes]
  cases regular with
  | nil =>
    refine ⟨?_, False.elim⟩
    rintro ⟨node, last, -⟩
    cases last
  | keyword =>
    refine ⟨?_, False.elim⟩
    rintro ⟨node, last, run, -⟩
    cases (leaf _ _ _).symm.trans last
    rcases run with e | e | e <;> cases e
  | string =>
    refine ⟨?_, False.elim⟩
    rintro ⟨node, last, run, -⟩
    cases (leaf _ _ _).symm.trans last
    rcases run with e | e | e <;> cases e
  | run =>
    constructor
    · rintro ⟨node, last, -, -, blank⟩
      cases (leaf _ _ _).symm.trans last
      exact blank
    · exact fun blank => ⟨_, leaf _ _ _, Kind.ofRun_isRun _, rfl, blank⟩
  | @bracket _ before kind value inside _ br =>
    refine ⟨?_, False.elim⟩
    rintro ⟨node, last, run, outside, -⟩
    simp only [nodes, List.map_append, List.map_cons, List.getLast?_append, List.getLast?_cons,
      Option.some_or, Option.some.injEq] at last
    cases inner : ((inside.nodes (some (0 + before.size)) (0 + before.size + 1)).map
        Node.settle).getLast? with
    | none =>
      rw [inner, Option.getD_none] at last
      subst last
      rcases br with rfl | rfl <;> rcases run with e | e | e <;> cases e
    | some node' =>
      rw [inner, Option.getD_some] at last
      subst last
      obtain ⟨child, mem, rfl⟩ := List.mem_map.1 (List.mem_of_getLast? inner)
      rw [Node.settle_parent] at outside
      obtain e | ⟨p, e, -⟩ := parent_of_mem mem <;> cases e.symm.trans outside

end Row

/-- The nodes of a source are written and read again. All of them come back, but for the blanks
around their texts, unless the last one is a run of blanks; only then there are fewer. -/
theorem render_keeps_structure (source : Text) :
    let nodes := Nodes.ofSource source
    let again := Nodes.ofSource (Nodes.render nodes)
    (List.Forall₂ Node.Alike again nodes ↔ ¬ Nodes.EndBlank nodes) ∧
      (again.length < nodes.length ↔ Nodes.EndBlank nodes) := by
  obtain ⟨row, regular, e⟩ := ofSource_row source
  have reread : Nodes.ofSource (Nodes.render ((row.nodes none 0).map Node.settle)) =
      (row.again.nodes none 0).map Node.settle := by
    rw [Nodes.render_row, Nodes.ofSource, Scan.feed_trimEnd_write regular]
  simp only [e, reread, Row.endBlank_iff regular, List.length_map, Row.length_nodes]
  by_cases blank : row.EndsBlank
  · have fewer := Row.size_again_lt blank
    refine ⟨⟨fun alike => ?_, fun h => absurd blank h⟩, ⟨fun _ => blank, fun _ => fewer⟩⟩
    have same := alike.length_eq
    simp only [List.length_map, Row.length_nodes] at same
    omega
  · have alike := Row.again_alike regular blank
    refine ⟨⟨fun _ => blank, fun _ => alike⟩, ⟨fun fewer => ?_, fun h => absurd h blank⟩⟩
    have same := alike.length_eq
    simp only [List.length_map, Row.length_nodes] at same
    omega

end Sigil
