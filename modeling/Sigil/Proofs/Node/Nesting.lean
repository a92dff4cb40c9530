import Mathlib.Logic.Relation
import Mathlib.Tactic.Common
import Sigil.Proofs.Node.Rendering

/-!
# The nesting of nodes

What stands inside what is said by parents alone: a node is inside another one if a chain of parents
leads there (`Nodes.Inside`). In the nodes of a source, all that follows a bracket up to some node
directly in it is inside the bracket; so the contents of every bracket are one stretch of the list.
This is read off the row that the nodes are laid out from (`Row.Lies`). Together with what the texts
of nodes can be it is `Nodes.WellNested`.

Whether a node stands in a block is found out by going from parent to parent. `Nodes.Climbs` is this
search as it goes, without a bound on its length; where parents come before their children it ends,
and with the right answer (`ofSource_wellNested`).
-/

namespace Sigil

namespace Nodes

/-- The node at `i` stands directly in the one at `p`. -/
def ParentAt (nodes : List Node) (i p : Nat) : Prop :=
  ∃ node, nodes[i]? = some node ∧ node.parent = some p

/-- The node at `i` stands inside the one at `p`, directly or not. -/
def Inside (nodes : List Node) : (i p : Nat) → Prop :=
  Relation.TransGen (ParentAt nodes)

end Nodes

/-! ### Rows inside a list -/

namespace Row

/-- The nodes of a row are those of a list from an index on. -/
def Lies (row : Row) (parent : Option Nat) (start : Nat) (all : List Node) : Prop :=
  ∀ ⦃i : Nat⦄ ⦃node : Node⦄, (row.nodes parent start)[i]? = some node →
    all[start + i]? = some node

section
variable {row before inside : Row} {kind : Kind} {value : Text} {parent : Option Nat}
  {start i p b : Nat} {all : List Node}

/-- A leaf comes behind the row in front of it. -/
lemma Lies.leaf (h : (Row.leaf before kind value).Lies parent start all) :
    before.Lies parent start all ∧
      all[start + before.size]? = some { kind, parent, value } := by
  refine ⟨fun i node hn => h ?_, h ?_⟩
  · rw [nodes, List.getElem?_append_left (List.getElem?_eq_some_iff.1 hn).1]
    exact hn
  · simp [nodes]

/-- A bracket comes behind the row in front of it, and then what it holds. -/
lemma Lies.bracket (h : (Row.bracket before kind value inside).Lies parent start all) :
    before.Lies parent start all ∧
      all[start + before.size]? = some { kind, parent, value } ∧
      inside.Lies (some (start + before.size)) (start + before.size + 1) all := by
  refine ⟨fun i node hn => h ?_, h ?_, fun i node hn => ?_⟩
  · rw [nodes, List.getElem?_append_left (List.getElem?_eq_some_iff.1 hn).1]
    exact hn
  · simp [nodes]
  · have place : start + before.size + 1 + i = start + (before.size + (i + 1)) := by omega
    rw [place]
    apply h
    rw [nodes, List.getElem?_append_right (by simp)]
    simpa using hn

/-- All nodes of a row inside a bracket are inside this bracket. -/
lemma Lies.isInside (h : row.Lies (some b) start all) (le : start ≤ i) (lt : i < start + row.size) :
    Nodes.Inside all i b := by
  induction row generalizing b start with
  | nil => exact absurd lt (Nat.not_lt.2 le)
  | leaf before kind value ih =>
    obtain ⟨front, last⟩ := h.leaf
    simp only [size] at lt
    rcases Nat.lt_or_ge i (start + before.size) with lt' | ge
    · exact ih front le lt'
    · obtain rfl : i = start + before.size := by omega
      exact .single ⟨_, last, rfl⟩
  | bracket before kind value inside ih ih' =>
    obtain ⟨front, last, within⟩ := h.bracket
    simp only [size] at lt
    have bracket : Nodes.ParentAt all (start + before.size) b := ⟨_, last, rfl⟩
    rcases Nat.lt_trichotomy i (start + before.size) with lt' | rfl | gt
    · exact ih front le lt'
    · exact .single bracket
    · exact .tail (ih' within gt (by omega)) bracket

/-- Behind a row that fills its bracket so far, a node of the bracket has only nodes of the bracket
before it. -/
lemma Lies.next (h : row.Lies parent start all) (fills : ∀ b ∈ parent, start = b + 1)
    (e : parent = some p) {j : Nat} (gt : p < j) (lt : j < start + row.size) :
    Nodes.Inside all j p := by
  subst e
  have := fills p rfl
  exact h.isInside (by omega) lt

/-- What stands between a bracket and a node directly in it is inside the bracket. -/
lemma Lies.contiguous (h : row.Lies parent start all) (fills : ∀ b ∈ parent, start = b + 1)
    (le : start ≤ i) (lt : i < start + row.size) (hp : Nodes.ParentAt all i p) {j : Nat}
    (gt : p < j) (before : j < i) : Nodes.Inside all j p := by
  obtain ⟨node, hn, hp⟩ := hp
  induction row generalizing parent start with
  | nil => exact absurd lt (Nat.not_lt.2 le)
  | leaf first kind value ih =>
    obtain ⟨front, last⟩ := h.leaf
    simp only [size] at lt
    rcases Nat.lt_or_ge i (start + first.size) with lt' | ge
    · exact ih front fills le lt'
    · obtain rfl : i = start + first.size := by omega
      cases hn.symm.trans last
      exact front.next fills hp gt before
  | bracket first kind value inside ih ih' =>
    obtain ⟨front, last, within⟩ := h.bracket
    simp only [size] at lt
    rcases Nat.lt_trichotomy i (start + first.size) with lt' | rfl | gt'
    · exact ih front fills le lt'
    · cases hn.symm.trans last
      exact front.next fills hp gt before
    · exact ih' within (by simp) gt' (by omega)

/-- The nodes of a row that can be read. -/
lemma Regular.node {outside : Bool} (regular : row.Regular outside)
    (out : outside = true → parent = none) {node : Node} (mem : node ∈ row.nodes parent start) :
    node.kind.IsBracket ∨
    (node.kind = .keyword ∧ ∀ c ∈ node.value, Scan.isPlain c = true ∧ c ≠ ' ') ∨
    (node.kind = .string ∧ ∀ c ∈ node.value, Scan.isBreak c = false ∧ c ≠ '"') ∨
    (node.kind = .other ∧ node.parent = none ∧ node.value ≠ []) := by
  induction regular generalizing parent start with
  | nil => cases mem
  | keyword _ text ih =>
    rcases List.mem_append.1 mem with mem | mem
    · exact ih out mem
    · cases List.mem_singleton.1 mem
      exact .inr (.inl ⟨rfl, text⟩)
  | string _ text ih =>
    rcases List.mem_append.1 mem with mem | mem
    · exact ih out mem
    · cases List.mem_singleton.1 mem
      exact .inr (.inr (.inl ⟨rfl, text⟩))
  | run _ ne _ ih =>
    rcases List.mem_append.1 mem with mem | mem
    · exact ih out mem
    · cases List.mem_singleton.1 mem
      exact .inr (.inr (.inr ⟨rfl, out rfl, ne⟩))
  | bracket _ br _ _ ih ih' =>
    rcases List.mem_append.1 mem with mem | mem
    · exact ih out mem
    · rcases List.mem_cons.1 mem with rfl | mem
      · exact .inl br
      · exact ih' nofun mem

end

end Row

/-! ### The nodes of a source -/

/-- A run stands outside all brackets and is not empty. The texts of keywords and strings hold no
character that would have ended them, and none that belongs to no node. -/
structure Node.WellRead (node : Node) : Prop where
  run : node.kind.IsRun → node.parent = none ∧ node.value ≠ []
  keyword : node.kind = .keyword → ∀ c ∈ node.value,
    c ∉ [' ', '{', '}', '(', ')', '"', '@', '\n', '\t', '\r', '\x0b']
  string : node.kind = .string → ∀ c ∈ node.value, c ∉ ['"', '\n', '\t', '\r', '\x0b']

namespace Nodes

/-- The nodes form a forest in which the contents of every bracket are one stretch, and each of them
is what reading a source can give. -/
structure WellNested (nodes : List Node) : Prop where
  forest : IsForest (nodes.map Node.toShape)
  contiguous : ∀ ⦃i p : Nat⦄, ParentAt nodes i p → ∀ j, p < j → j < i → Inside nodes j p
  wellRead : ∀ node ∈ nodes, node.WellRead

/-- Settling the kinds of runs does not move any node. -/
lemma parentAt_settle {nodes : List Node} :
    ParentAt (nodes.map Node.settle) = ParentAt nodes := by
  funext i p
  simp only [ParentAt, List.getElem?_map, Option.map_eq_some_iff, eq_iff_iff]
  constructor
  · rintro ⟨_, ⟨node, hn, rfl⟩, hp⟩
    exact ⟨node, hn, node.settle_parent ▸ hp⟩
  · rintro ⟨node, hn, hp⟩
    exact ⟨_, ⟨node, hn, rfl⟩, node.settle_parent.symm ▸ hp⟩

end Nodes

/-- The nodes of a row that can be read, once their kinds are settled. -/
lemma Row.Regular.wellRead {row : Row} (regular : row.Regular true) {node : Node}
    (mem : node ∈ row.nodes none 0) : node.settle.WellRead := by
  have same : node.kind ≠ .other → node.settle = node := fun ne => if_neg ne
  obtain br | ⟨kind, text⟩ | ⟨kind, text⟩ | ⟨kind, out, ne⟩ := regular.node (fun _ => rfl) mem
  · rcases br with kind | kind
    all_goals
      rw [same (by simp [kind])]
      exact ⟨by simp [kind, Kind.IsRun], by simp [kind], by simp [kind]⟩
  · rw [same (by simp [kind])]
    have ending : ∀ c ∈ [' ', '{', '}', '(', ')', '"', '@', '\n', '\t', '\r', '\x0b'],
        ¬ (Scan.isPlain c = true ∧ c ≠ ' ') := by simp [Scan.isPlain, Scan.isMark, Scan.isBreak]
    exact ⟨by simp [kind, Kind.IsRun], fun _ c mem bad => ending c bad (text c mem), by simp [kind]⟩
  · rw [same (by simp [kind])]
    have ending : ∀ c ∈ ['"', '\n', '\t', '\r', '\x0b'],
        ¬ (Scan.isBreak c = false ∧ c ≠ '"') := by simp [Scan.isBreak]
    exact ⟨by simp [kind, Kind.IsRun], by simp [kind], fun _ c mem bad => ending c bad (text c mem)⟩
  · have settled : node.settle = { node with kind := Kind.ofRun node.value } := if_pos kind
    rw [settled]
    have run := Kind.ofRun_isRun node.value
    refine ⟨fun _ => ⟨out, ne⟩, fun e => ?_, fun e => ?_⟩
    · rcases run with e' | e' | e' <;> cases e.symm.trans e'
    · rcases run with e' | e' | e' <;> cases e.symm.trans e'

/-- The nodes of a source are well nested. -/
lemma Nodes.wellNested_ofSource (source : Text) : WellNested (ofSource source) := by
  obtain ⟨row, regular, e⟩ := ofSource_row source
  refine ⟨ofSource_forest source, ?_, ?_⟩
  · intro i p hp j gt lt
    rw [e, Inside, parentAt_settle] at *
    have lies : row.Lies none 0 (row.nodes none 0) := fun i node hn => by rwa [Nat.zero_add]
    have inRange : i < row.size := by
      obtain ⟨node, hn, -⟩ := hp
      simpa using (List.getElem?_eq_some_iff.1 hn).1
    exact lies.contiguous nofun (Nat.zero_le i) (by omega) hp gt lt
  · intro node mem
    rw [e] at mem
    obtain ⟨old, ho, rfl⟩ := List.mem_map.1 mem
    exact regular.wellRead ho

/-! ### Blocks around a node -/

namespace Nodes

/-- The search for a block around a node: it goes from parent to parent, and gives up at an index
that is not below `start`. -/
inductive Climbs (nodes : List Node) (start : Nat) : (parent : Option Nat) → Bool → Prop where
  | top :
    Climbs nodes start none false
  | missing {p} :
    nodes[p]? = none → Climbs nodes start (some p) false
  | block {p node} :
    nodes[p]? = some node → node.kind = .block → Climbs nodes start (some p) true
  | up {p node answer} :
    nodes[p]? = some node → node.kind ≠ .block → p < start →
    Climbs nodes start node.parent answer → Climbs nodes start (some p) answer
  | giveUp {p node} :
    nodes[p]? = some node → node.kind ≠ .block → start ≤ p → Climbs nodes start (some p) false

section
variable {nodes : List Node} {start links p : Nat} {parent : Option Nat} {answer : Bool}

/-- In a forest, a node comes behind its parent. -/
lemma parent_lt (forest : IsForest (nodes.map Node.toShape)) {i : Nat} {node : Node}
    (hn : nodes[i]? = some node) (hp : node.parent = some p) : p < i := by
  have shape : (nodes.map Node.toShape)[i]? = some node.toShape := by
    rw [List.getElem?_map, hn, Option.map_some]
  exact (forest shape hp).1

/-- As many links as there are nodes up to the first parent are enough. -/
lemma climbs_chainMeetsBlock (forest : IsForest (nodes.map Node.toShape)) (lt : p < start)
    (enough : p < links) :
    Climbs nodes start (some p) (chainMeetsBlock nodes start links (some p)) := by
  induction links generalizing p with
  | zero => exact absurd enough (Nat.not_lt_zero p)
  | succ links ih =>
    unfold chainMeetsBlock
    split
    · rename_i none
      exact .missing none
    · rename_i node hn
      by_cases block : node.kind = .block
      · rw [if_pos block]
        exact .block hn block
      · rw [if_neg block, if_pos lt]
        refine .up hn block lt ?_
        cases hp : node.parent with
        | none =>
          rw [chainMeetsBlock]
          exact .top
        | some q =>
          have earlier := parent_lt forest hn hp
          exact ih (by omega) (by omega)

/-- The search for a block around a node ends. -/
lemma climbs_withinBlock (forest : IsForest (nodes.map Node.toShape)) (i : Nat) :
    Climbs nodes i (nodes[i]?.bind (·.parent)) (withinBlock nodes i) := by
  unfold withinBlock
  cases hn : nodes[i]? with
  | none => exact .top
  | some node =>
    cases hp : node.parent with
    | none =>
      simp only [Option.bind_some, hp, chainMeetsBlock]
      exact .top
    | some p =>
      have lt := parent_lt forest hn hp
      have inRange := (List.getElem?_eq_some_iff.1 hn).1
      simp only [Option.bind_some, hp]
      exact climbs_chainMeetsBlock forest lt (by omega)

/-- The answer is whether a block is met. -/
lemma Climbs.answer_iff (h : Climbs nodes start parent answer)
    (forest : IsForest (nodes.map Node.toShape)) (lt : ∀ p, parent = some p → p < start) :
    answer = true ↔ ∃ p a block, parent = some p ∧ Relation.ReflTransGen (ParentAt nodes) p a ∧
      nodes[a]? = some block ∧ block.kind = .block := by
  induction h with
  | top => simp
  | @missing p none =>
    refine ⟨nofun, ?_⟩
    rintro ⟨_, a, block, e, chain, hb, -⟩
    cases e
    rcases chain.cases_head with rfl | ⟨c, ⟨node, hn, -⟩, -⟩
    · cases none.symm.trans hb
    · cases none.symm.trans hn
  | @block p node hn kind => exact ⟨fun _ => ⟨p, p, node, rfl, .refl, hn, kind⟩, fun _ => rfl⟩
  | @up p node answer hn kind below _ ih =>
    have earlier : ∀ q, node.parent = some q → q < start := by
      intro q hq
      exact Nat.lt_trans (parent_lt forest hn hq) below
    rw [ih earlier]
    constructor
    · rintro ⟨q, a, block, hq, chain, found⟩
      exact ⟨p, a, block, rfl, .head ⟨node, hn, hq⟩ chain, found⟩
    · rintro ⟨_, a, block, e, chain, hb, isBlock⟩
      cases e
      rcases chain.cases_head with rfl | ⟨q, ⟨node', hn', hq⟩, chain⟩
      · cases hn.symm.trans hb
        exact absurd isBlock kind
      · cases hn.symm.trans hn'
        exact ⟨q, a, block, hq, chain, hb, isBlock⟩
  -- parents come earlier, so the search does not have to give up
  | @giveUp p node _ _ le => exact absurd (lt p rfl) (Nat.not_lt.2 le)

/-- A node stands in a block if a block is among the nodes that it is inside of. -/
lemma withinBlock_iff (forest : IsForest (nodes.map Node.toShape)) (i : Nat) :
    withinBlock nodes i = true ↔
      ∃ a block, Inside nodes i a ∧ nodes[a]? = some block ∧ block.kind = .block := by
  have earlier : ∀ p, nodes[i]?.bind (·.parent) = some p → p < i := by
    intro p e
    obtain ⟨node, hn, hp⟩ := Option.bind_eq_some_iff.1 e
    exact parent_lt forest hn hp
  rw [(climbs_withinBlock forest i).answer_iff forest earlier]
  constructor
  · rintro ⟨p, a, block, e, chain, found⟩
    obtain ⟨node, hn, hp⟩ := Option.bind_eq_some_iff.1 e
    exact ⟨a, block, .head' ⟨node, hn, hp⟩ chain, found⟩
  · rintro ⟨a, block, chain, found⟩
    obtain ⟨p, ⟨node, hn, hp⟩, chain⟩ := Relation.TransGen.head'_iff.1 chain
    exact ⟨p, a, block, Option.bind_eq_some_iff.2 ⟨node, hn, hp⟩, chain, found⟩

end

end Nodes

/-- The nodes of a source are well nested: parents are earlier brackets, the contents of a bracket
are one stretch of the list, and every node is what reading can give. On any list in which parents
are earlier brackets, the search for a block around a node ends, and it finds one exactly if the
node is inside a block. -/
theorem ofSource_wellNested :
    (∀ source, Nodes.WellNested (Nodes.ofSource source)) ∧
    ∀ nodes : List Node, IsForest (nodes.map Node.toShape) → ∀ i,
      Nodes.Climbs nodes i (nodes[i]?.bind (·.parent)) (Nodes.withinBlock nodes i) ∧
      (Nodes.withinBlock nodes i = true ↔
        ∃ a block, Nodes.Inside nodes i a ∧ nodes[a]? = some block ∧ block.kind = .block) :=
  ⟨Nodes.wellNested_ofSource, fun _ forest i =>
    ⟨Nodes.climbs_withinBlock forest i, Nodes.withinBlock_iff forest i⟩⟩

/-- A string in round brackets in a block that is not closed stands in the block. -/
theorem ofSource_wellNested_open :
    let nodes := Nodes.ofSource "a \x7b(\"s\"".toList
    Nodes.withinBlock nodes 3 = true ∧
      ∃ a block, Nodes.Inside nodes 3 a ∧ nodes[a]? = some block ∧ block.kind = .block := by
  intro nodes
  have forest := (ofSource_wellNested.1 "a \x7b(\"s\"".toList).forest
  have within : Nodes.withinBlock nodes 3 = true := by decide +kernel
  exact ⟨within, (ofSource_wellNested.2 nodes forest 3).2.1 within⟩

end Sigil
