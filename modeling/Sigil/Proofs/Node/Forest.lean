import Mathlib.Tactic.Common
import Sigil.Node.Query
import Sigil.Node.Scan

/-!
# The forest of nodes

The parents of the nodes of a source form a forest: `ofSource_forest` says that the parent of a node
is always an earlier bracket. It is read off the scanner, whose invariant `Scan.Nested` adds that
the brackets it holds open are among the nodes. What every move of the scanner keeps is kept by one
character (`Scan.Kept.step`) and by a whole text (`Scan.Kept.feed`).

On node lists in general, `operand_inv` says what an operand of a statement is: a later sibling of
the wanted kind; and whether a node stands in a block is a matter of shapes (`withinBlock_congr`).
-/

namespace Sigil

/-- The kinds of nodes that others can stand in. -/
def Kind.IsBracket (kind : Kind) : Prop :=
  kind = .block ∨ kind = .paren

/-- The parent of a node is an earlier bracket. -/
def IsForest (shapes : List Shape) : Prop :=
  ∀ ⦃i p : Nat⦄ ⦃s : Shape⦄, shapes[i]? = some s → s.parent = some p →
    p < i ∧ ∃ b : Shape, shapes[p]? = some b ∧ b.kind.IsBracket

/-- A list without nodes is a forest. -/
lemma IsForest.nil : IsForest [] := by
  intro i p s hs
  simp at hs

/-- A node can be added inside a bracket that is there. -/
lemma IsForest.snoc {shapes s} (forest : IsForest shapes)
    (hs : ∀ {p}, s.parent = some p → ∃ b, shapes[p]? = some b ∧ b.kind.IsBracket) :
    IsForest (shapes ++ [s]) := by
  intro i p t ht hp
  rw [List.getElem?_append] at ht
  split at ht
  · obtain ⟨lt, b, hb, br⟩ := forest ht hp
    exact ⟨lt, b, List.getElem?_append_left (List.getElem?_eq_some_iff.1 hb).1 ▸ hb, br⟩
  · obtain ⟨_, e⟩ := List.getElem?_eq_some_iff.1 ht
    simp only [List.getElem_singleton] at e
    subst e
    obtain ⟨b, hb, br⟩ := hs hp
    have lt := (List.getElem?_eq_some_iff.1 hb).1
    exact ⟨by omega, b, List.getElem?_append_left lt ▸ hb, br⟩

/-! ### Scanning -/

namespace Scan

/-- A property that every move of the scanner keeps. -/
structure Kept (I : Scan → Prop) : Prop where
  mode : ∀ {s} mode, I s → I { s with mode }
  pushAt : ∀ {s} i c, I s → I (s.pushAt i c)
  create : ∀ {s} kind mode, I s → I (s.create kind mode)
  openBracket : ∀ {s kind}, kind.IsBracket → I s → I (s.openBracket kind)
  closeBracket : ∀ {s} kind, I s → I (s.closeBracket kind)

/-- A property that every move keeps is kept by a plain character. -/
lemma Kept.plain {I : Scan → Prop} (kept : Kept I) {s : Scan} (hs : I s) (c : Char) :
    I (s.plain c) := by
  unfold Scan.plain
  split
  · exact kept.pushAt _ c hs
  · split
    · exact kept.mode .between hs
    · split
      · exact kept.pushAt _ c hs
      · exact kept.pushAt _ c (kept.create .other .run hs)

/-- One character is a move. -/
lemma Kept.step {I : Scan → Prop} (kept : Kept I) {s : Scan} (hs : I s) (c : Char) :
    I (s.step c) := by
  -- the questions that a character is put through, in their order; `split` is slow on so many
  refine iteInduction (fun _ => ?_) fun _ => iteInduction (fun _ => ?_) fun _ => ?_
  · exact iteInduction (fun _ => hs) fun _ => kept.mode .between hs
  · exact iteInduction (fun _ => kept.mode .between hs) fun _ => kept.pushAt _ c hs
  refine iteInduction (fun _ => ?_) fun _ => iteInduction (fun _ => ?_) fun _ => ?_
  · exact kept.openBracket (.inl rfl) hs
  · exact kept.openBracket (.inr rfl) hs
  refine iteInduction (fun _ => ?_) fun _ => iteInduction (fun _ => ?_) fun _ => ?_
  · exact kept.closeBracket .block hs
  · exact kept.closeBracket .paren hs
  refine iteInduction (fun _ => ?_) fun _ => iteInduction (fun _ => ?_) fun _ => ?_
  · exact kept.create .string .string hs
  · exact kept.create .keyword .keyword hs
  refine iteInduction (fun _ => ?_) fun _ => kept.plain hs c
  exact iteInduction (fun _ => kept.mode .between hs) fun _ => kept.pushAt _ c hs

/-- A whole text is a row of moves. -/
lemma Kept.feed {I : Scan → Prop} (kept : Kept I) {s : Scan} (hs : I s) (source : Text) :
    I (s.feed source) := by
  induction source generalizing s with
  | nil => exact hs
  | cons c source ih => exact ih (kept.step hs c)

/-- The shapes of the nodes read so far. -/
def shapes (s : Scan) : List Shape :=
  s.nodes.map Node.toShape

/-- The nodes read so far form a forest, and the open brackets are among them. -/
structure Nested (s : Scan) : Prop where
  forest : IsForest s.shapes
  opened : ∀ {kind i}, (kind, i) ∈ s.opened →
    kind.IsBracket ∧ ∃ b, s.shapes[i]? = some b ∧ b.kind = kind

/-- A character that is added changes no shape. -/
@[simp] lemma shapes_pushAt (i : Nat) (c : Char) (s : Scan) : (s.pushAt i c).shapes = s.shapes := by
  apply List.ext_getElem?
  intro j
  simp only [shapes, pushAt, List.getElem?_map, List.getElem?_modify]
  split <;> cases s.nodes[j]? <;> rfl

/-- A new node comes last, in the innermost open bracket. -/
@[simp] lemma shapes_create (kind : Kind) (mode : Mode) (s : Scan) :
    (s.create kind mode).shapes = s.shapes ++ [⟨kind, s.parent⟩] := by
  simp [shapes, create, Node.empty]

/-- The innermost open bracket is among the nodes. -/
lemma Nested.parent_inv {s : Scan} (hs : s.Nested) {p} (e : s.parent = some p) :
    ∃ b, s.shapes[p]? = some b ∧ b.kind.IsBracket := by
  cases ho : s.opened with
  | nil => simp [Scan.parent, ho] at e
  | cons top outer =>
    obtain ⟨kind, i⟩ := top
    simp only [Scan.parent, ho, List.head?_cons, Option.map_some, Option.some.injEq] at e
    subst e
    obtain ⟨br, b, hb, e⟩ := hs.opened (ho ▸ List.mem_cons_self ..)
    exact ⟨b, hb, e ▸ br⟩

/-- The invariant only concerns shapes and open brackets. -/
lemma Nested.of_eq {s t : Scan} (hs : s.Nested) (es : t.shapes = s.shapes)
    (eo : ∀ top ∈ t.opened, top ∈ s.opened) : t.Nested where
  forest := es ▸ hs.forest
  opened h := es ▸ hs.opened (eo _ h)

/-- The nodes are still nested when one of them has got a character. -/
lemma Nested.pushAt {s : Scan} (hs : s.Nested) (i : Nat) (c : Char) : (s.pushAt i c).Nested :=
  hs.of_eq (shapes_pushAt i c s) fun _ h => h

/-- What is read next does not matter to the nesting. -/
lemma Nested.mode {s : Scan} (hs : s.Nested) (mode : Mode) : { s with mode }.Nested :=
  hs.of_eq rfl fun _ h => h

/-- A node that is started stands in the innermost open bracket, so it is nested. -/
lemma Nested.create {s : Scan} (hs : s.Nested) (kind : Kind) (mode : Mode) :
    (s.create kind mode).Nested where
  forest := by
    rw [shapes_create]
    exact hs.forest.snoc hs.parent_inv
  opened h := by
    obtain ⟨br, b, hb, e⟩ := hs.opened h
    rw [shapes_create]
    exact ⟨br, b, List.getElem?_append_left (List.getElem?_eq_some_iff.1 hb).1 ▸ hb, e⟩

/-- Opening a bracket keeps the invariant: the new node is the open one. -/
lemma Nested.openBracket {s : Scan} (hs : s.Nested) {kind : Kind} (br : kind.IsBracket) :
    (s.openBracket kind).Nested where
  forest := (hs.create kind .between).forest
  opened h := by
    rcases List.mem_cons.1 h with e | h
    · cases e
      refine ⟨br, ⟨kind, s.parent⟩, ?_, rfl⟩
      have e : (s.openBracket kind).shapes = s.shapes ++ [⟨kind, s.parent⟩] :=
        shapes_create kind .between s
      rw [e, List.getElem?_append_right (by simp [shapes])]
      simp [shapes]
    · exact (hs.create kind .between).opened h

/-- To close a bracket forgets an open one, and the others are still among the nodes. -/
lemma Nested.closeBracket {s : Scan} (hs : s.Nested) (kind : Kind) :
    (s.closeBracket kind).Nested := by
  unfold Scan.closeBracket
  split
  · rename_i k i outer ho
    refine hs.of_eq rfl ?_
    intro top h
    simp only at h
    split at h
    · exact ho ▸ List.mem_cons_of_mem _ h
    · exact h
  · exact hs.mode .between

/-- Every move of the scanner keeps the nodes nested. -/
lemma nested_kept : Kept Nested where
  mode mode hs := hs.mode mode
  pushAt i c hs := hs.pushAt i c
  create kind mode hs := hs.create kind mode
  openBracket br hs := hs.openBracket br
  closeBracket kind hs := hs.closeBracket kind

/-- Before anything is read, there is nothing to nest. -/
lemma Nested.empty : Nested {} where
  forest := IsForest.nil
  opened h := by simp at h

/-- No node shows a variable yet. -/
def Unbound (s : Scan) : Prop :=
  ∀ node ∈ s.nodes, node.bound = none

/-- A node that is started does not show a variable. -/
lemma Unbound.create {s : Scan} (hs : s.Unbound) (kind : Kind) (mode : Mode) :
    (s.create kind mode).Unbound := by
  intro node mem
  rcases List.mem_append.1 mem with mem | mem
  · exact hs node mem
  · rw [List.mem_singleton.1 mem]
    rfl

/-- The scanner never shows a variable. -/
lemma unbound_kept : Kept Unbound where
  mode _ hs := hs
  pushAt i c hs node mem := by
    obtain ⟨j, hj⟩ := List.getElem?_of_mem mem
    rw [pushAt, List.getElem?_modify] at hj
    obtain ⟨old, ho, rfl⟩ := Option.map_eq_some_iff.1 hj
    have h := hs old (List.mem_of_getElem? ho)
    split
    · exact h
    · exact h
  create kind mode hs := hs.create kind mode
  openBracket _ hs := hs.create _ .between
  closeBracket kind hs := by
    unfold closeBracket
    split
    · exact hs
    · exact hs

end Scan

/-- Settling the kind of a node does not move it. -/
lemma Node.settle_parent (node : Node) : node.settle.parent = node.parent := by
  unfold Node.settle
  split <;> rfl

/-- Settling does not touch brackets. -/
lemma Node.settle_kind {node : Node} (br : node.kind.IsBracket) : node.settle.kind = node.kind := by
  unfold Node.settle
  split
  · rename_i e
    rcases br with e' | e' <;> exact absurd (e.symm.trans e') (by simp)
  · rfl

/-- The nodes of a source form a forest. -/
lemma ofSource_forest (source : Text) : IsForest ((Nodes.ofSource source).map Node.toShape) := by
  have nested := Scan.nested_kept.feed .empty source
  intro i p s hs hp
  simp only [Nodes.ofSource, List.map_map, List.getElem?_map, Option.map_eq_some_iff] at hs ⊢
  obtain ⟨node, hn, rfl⟩ := hs
  have hs : (Scan.feed {} source).shapes[i]? = some node.toShape := by
    simp [Scan.shapes, hn]
  obtain ⟨lt, b, hb, br⟩ := nested.forest hs (node.settle_parent ▸ hp)
  refine ⟨lt, ?_⟩
  -- settling only changes the kinds of runs, so the parent is still a bracket
  simp only [Scan.shapes, List.getElem?_map, Option.map_eq_some_iff] at hb
  obtain ⟨b, hb, rfl⟩ := hb
  exact ⟨_, ⟨b, hb, rfl⟩, (Node.settle_kind br).symm ▸ br⟩

/-- The nodes of a source show no variables. -/
lemma ofSource_unbound {source : Text} {node} (mem : node ∈ Nodes.ofSource source) :
    node.bound = none := by
  obtain ⟨old, ho, rfl⟩ := List.mem_map.1 mem
  have h := Scan.unbound_kept.feed (s := {}) (fun _ mem => by simp at mem) source old ho
  unfold Node.settle
  split
  · exact h
  · exact h

/-! ### Operands -/

namespace Nodes

/-- The operand that was found is a later node of the wanted parent and kind. -/
lemma findOperand_inv {parent kind nth i nodes j}
    (h : findOperand parent kind nth i nodes = some j) :
    ∃ k node, j = i + k ∧ nodes[k]? = some node ∧ node.parent = parent ∧ node.kind = kind := by
  induction nodes generalizing nth i with
  | nil => simp [findOperand] at h
  | cons node rest ih =>
    have later : ∀ {nth}, findOperand parent kind nth (i + 1) rest = some j →
        ∃ k n, j = i + k ∧ (node :: rest)[k]? = some n ∧ n.parent = parent ∧ n.kind = kind := by
      intro nth h
      obtain ⟨k, n, e, hn, hp, hk⟩ := ih h
      exact ⟨k + 1, n, by omega, hn, hp, hk⟩
    unfold findOperand at h
    split at h
    · exact later h
    · rename_i hp
      split at h
      · simp at h
      · split at h
        · rename_i hk
          cases nth with
          | zero =>
            cases h
            exact ⟨0, node, rfl, rfl, by simpa using hp, hk⟩
          | succ nth => exact later h
        · exact later h

/-- An operand of a statement is a later sibling of the wanted kind. -/
lemma operand_inv {nodes keyword kind nth j} (h : operand nodes keyword kind nth = some j) :
    ∃ word node, nodes[keyword]? = some word ∧ nodes[j]? = some node ∧
      keyword < j ∧ node.parent = word.parent ∧ node.kind = kind := by
  unfold operand at h
  obtain ⟨word, hw, h⟩ := Option.bind_eq_some_iff.1 h
  obtain ⟨k, node, rfl, hn, hp, hk⟩ := findOperand_inv h
  rw [List.getElem?_drop] at hn
  exact ⟨word, node, hw, hn, by omega, hp, hk⟩

/-! ### Blocks around a node -/

/-- Lists of the same shapes have nodes at the same places. -/
lemma getElem?_of_shapes {nodes nodes' : List Node}
    (h : nodes.map Node.toShape = nodes'.map Node.toShape) (i : Nat) :
    nodes[i]? = none ∧ nodes'[i]? = none ∨ ∃ node node', nodes[i]? = some node ∧
      nodes'[i]? = some node' ∧ node.toShape = node'.toShape := by
  have same : nodes[i]?.map Node.toShape = nodes'[i]?.map Node.toShape := by
    simpa only [List.getElem?_map] using congrArg (·[i]?) h
  cases e : nodes[i]? with
  | none =>
    rw [e] at same
    exact .inl ⟨rfl, Option.map_eq_none_iff.1 same.symm⟩
  | some node =>
    rw [e] at same
    obtain ⟨node', e', shape⟩ := Option.map_eq_some_iff.1 same.symm
    exact .inr ⟨node, node', rfl, e', shape.symm⟩

/-- Whether a chain of parents meets a block is a matter of shapes. -/
lemma chainMeetsBlock_congr {nodes nodes' : List Node}
    (h : nodes.map Node.toShape = nodes'.map Node.toShape) (start links : Nat)
    (parent : Option Nat) :
    chainMeetsBlock nodes start links parent = chainMeetsBlock nodes' start links parent := by
  induction links generalizing parent with
  | zero => cases parent <;> rfl
  | succ links ih =>
    cases parent with
    | none => rfl
    | some p =>
      unfold chainMeetsBlock
      obtain ⟨e, e'⟩ | ⟨node, node', e, e', shape⟩ := getElem?_of_shapes h p
      · rw [e, e']
      · rw [e, e']
        dsimp only
        rw [shape, ih]

/-- Whether a node stands in a block is a matter of shapes. -/
lemma withinBlock_congr {nodes nodes' : List Node}
    (h : nodes.map Node.toShape = nodes'.map Node.toShape) (index : Nat) :
    withinBlock nodes index = withinBlock nodes' index := by
  have length : nodes.length = nodes'.length := by simpa using congrArg List.length h
  unfold withinBlock
  obtain ⟨e, e'⟩ | ⟨node, node', e, e', shape⟩ := getElem?_of_shapes h index
  · rw [e, e']
  · rw [e, e']
    dsimp only
    rw [shape, length]
    exact chainMeetsBlock_congr h index nodes'.length node'.parent

/-- What stands outside all brackets stands outside all blocks. -/
lemma withinBlock_of_no_parent {nodes : List Node} {index : Nat} {node : Node}
    (hn : nodes[index]? = some node) (hp : node.parent = none) :
    withinBlock nodes index = false := by
  simp [withinBlock, hn, hp, chainMeetsBlock]

/-- What stands directly in a block stands in a block. -/
lemma withinBlock_of_parent {nodes : List Node} {index b : Nat} {node block : Node}
    (hn : nodes[index]? = some node) (hp : node.parent = some b) (hb : nodes[b]? = some block)
    (hk : block.kind = .block) : withinBlock nodes index = true := by
  have pos : nodes.length = nodes.length - 1 + 1 := by
    have := (List.getElem?_eq_some_iff.1 hb).1
    omega
  simp only [withinBlock, hn, hp]
  rw [pos, chainMeetsBlock]
  simp [hb, hk]

end Nodes

end Sigil
