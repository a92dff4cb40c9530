import Mathlib.Data.List.Nodup
import Mathlib.Data.List.Perm.Subperm
import Mathlib.Logic.Relation
import Mathlib.Tactic.Common
import Sigil.Proofs.Node.Nesting

/-!
# Writing any list of nodes

Nodes need not come from a source, and then their parents can be anything: later nodes, the nodes
themselves, nodes that are not there or that hold nothing, or nodes that stand in each other. Such a
list can be written as well. What is written is found by going inwards: the nodes outside all
brackets are looked up, and for each bracket among them the nodes directly in it, and so on.
`Writes` is this recursion as it goes, without a bound on its depth, and says for each kind of node
what it puts into the text.

It comes only to nodes from which the parents lead outside again (`Outward`). This way has one
length only, so no node is met on it twice, and the recursion does not go deeper than there are
nodes. Therefore it ends, `render` writes what it writes, and it comes to every node that is tied to
the outside exactly once (`render_ends`).
-/

namespace Sigil.Nodes

variable {nodes : List Node} {parent : Option Nat} {i p m n links : Nat}

/-! ### The way outside -/

/-- From `parent` on, so many links lead outside, and only through brackets. -/
inductive Outward (nodes : List Node) : (parent : Option Nat) → (links : Nat) → Prop where
  | outside :
    Outward nodes none 0
  | bracket {p links : Nat} {node : Node} :
    nodes[p]? = some node →
    node.kind.IsBracket →
    Outward nodes node.parent links →
    Outward nodes (some p) (links + 1)

/-- The node at an index is tied to the outside: so many links lead there from its parent on, and
only through brackets. -/
def TiedAt (nodes : List Node) (index links : Nat) : Prop :=
  ∃ node, nodes[index]? = some node ∧ Outward nodes node.parent links

/-- The way outside has one length. -/
lemma Outward.unique (h : Outward nodes parent m) (h' : Outward nodes parent n) : m = n := by
  induction h generalizing n with
  | outside =>
    cases h'
    rfl
  | bracket found _ _ ih =>
    cases h' with
    | bracket found' _ h' =>
      cases found.symm.trans found'
      rw [ih h']

/-- The way outside from a node has one length. -/
lemma TiedAt.unique (h : TiedAt nodes i m) (h' : TiedAt nodes i n) : m = n := by
  obtain ⟨node, found, outward⟩ := h
  obtain ⟨node', found', outward'⟩ := h'
  cases found.symm.trans found'
  exact outward.unique outward'

/-- The brackets on the way outside are different ones, because from each of them the way is of a
different length. -/
lemma Outward.exists_chain (h : Outward nodes parent links) :
    ∃ chain : List Nat, chain.length = links ∧ chain.Nodup ∧
      ∀ p ∈ chain, p < nodes.length ∧ ∃ n ≤ links, Outward nodes (some p) n := by
  induction h with
  | outside => exact ⟨[], rfl, .nil, nofun⟩
  | @bracket p links node found br outward ih =>
    obtain ⟨chain, length, nodup, chained⟩ := ih
    have here : Outward nodes (some p) (links + 1) := .bracket found br outward
    refine ⟨p :: chain, by simp [length], List.nodup_cons.2 ⟨?_, nodup⟩, ?_⟩
    · intro again
      obtain ⟨_, n, le, outward'⟩ := chained p again
      have := outward'.unique here
      omega
    · intro q mem
      rcases List.mem_cons.1 mem with rfl | mem
      · exact ⟨(List.getElem?_eq_some_iff.1 found).1, _, Nat.le_refl _, here⟩
      · obtain ⟨lt, n, le, outward'⟩ := chained q mem
        exact ⟨lt, n, Nat.le_succ_of_le le, outward'⟩

/-- The way outside has no more links than there are nodes. -/
lemma Outward.links_le (h : Outward nodes parent links) : links ≤ nodes.length := by
  obtain ⟨chain, rfl, nodup, chained⟩ := h.exists_chain
  have inRange : chain ⊆ List.range nodes.length :=
    fun p mem => List.mem_range.2 (chained p mem).1
  simpa using (List.Nodup.subperm nodup inRange).length_le

/-- Going from a node to its parent makes the way shorter. -/
lemma TiedAt.up (h : TiedAt nodes i m) (hp : ParentAt nodes i p) :
    ∃ n < m, TiedAt nodes p n := by
  obtain ⟨node, found, outward⟩ := h
  obtain ⟨node', found', hp⟩ := hp
  cases found.symm.trans found'
  rw [hp] at outward
  cases outward with
  | bracket found br outward => exact ⟨_, Nat.lt_succ_self _, _, found, outward⟩

/-- Going from a node to one that it stands in makes the way shorter, however far it is. -/
lemma TiedAt.inside (h : TiedAt nodes i m) (inside : Inside nodes i p) :
    ∃ n < m, TiedAt nodes p n := by
  induction inside with
  | single hp => exact h.up hp
  | tail _ hp ih =>
    obtain ⟨n, lt, tied⟩ := ih
    obtain ⟨n', lt', tied'⟩ := tied.up hp
    exact ⟨n', Nat.lt_trans lt' lt, tied'⟩

/-- Of two nodes from which the way is of the same length, neither is inside the other. -/
lemma TiedAt.eq_of_chain (h : TiedAt nodes i m) (h' : TiedAt nodes p m)
    (chain : Relation.ReflTransGen (ParentAt nodes) i p) : i = p := by
  rcases Relation.reflTransGen_iff_eq_or_transGen.1 chain with same | inside
  · exact same.symm
  · obtain ⟨n, lt, tied⟩ := h.inside inside
    exact absurd (tied.unique h') (Nat.ne_of_lt lt)

/-- A node has one parent at most. -/
lemma parentAt_rightUnique : Relator.RightUnique (ParentAt nodes) := by
  rintro i p q ⟨node, found, hp⟩ ⟨node', found', hq⟩
  cases found.symm.trans found'
  exact Option.some.inj (hp.symm.trans hq)

/-! ### Going inwards -/

/-- What is put into the text for a node in which nothing stands. -/
inductive Alone (nodes : List Node) : (node : Node) → (index : Nat) → Text → Prop where
  | keyword {node index} :
    node.kind = .keyword →
    Alone nodes node index ('@' :: node.value ++ [' '])
  | string {node index} :
    node.kind = .string →
    Alone nodes node index ('"' :: node.value ++ ['"', ' '])
  | run {node index} :
    node.kind.IsRun →
    Alone nodes node index (node.value ++ [' '])
  | bracket {node index first last} :
    Scan.Brackets node.kind first last →
    childrenOf nodes (some index) = [] →
    Alone nodes node index (first :: Text.trim node.value ++ [last, ' '])

/-- The nodes of a row are written one after the other, each bracket with what stands directly in
it. The indices of all nodes that are put into the text are in `written`, in the order in which they
are put there. Each index stands for one piece of the text, and what stands in a bracket is put
between its characters once. -/
inductive Writes (nodes : List Node) :
    (row : List (Node × Nat)) → (written : List Nat) → Text → Prop where
  | nil :
    Writes nodes [] [] []
  | alone {node index put row written text} :
    Alone nodes node index put →
    Writes nodes row written text →
    Writes nodes ((node, index) :: row) (index :: written) (put ++ text)
  | bracket {node index first last inner inside row written text} :
    Scan.Brackets node.kind first last →
    childrenOf nodes (some index) ≠ [] →
    Writes nodes (childrenOf nodes (some index)) inner inside →
    Writes nodes row written text →
    Writes nodes ((node, index) :: row) (index :: (inner ++ written))
      (first :: Text.trim node.value ++ ' ' :: inside ++ [last, ' '] ++ text)

variable {row : List (Node × Nat)} {written written' : List Nat} {text text' : Text}

/-- The children of a bracket are the nodes of the list that have it as parent. -/
lemma mem_childrenOf {pair : Node × Nat} : pair ∈ childrenOf nodes parent ↔
    nodes[pair.2]? = some pair.1 ∧ pair.1.parent = parent := by
  rw [childrenOf, List.mem_filter, List.mem_zipIdx_iff_getElem?, beq_iff_eq]

/-- No node is among the children twice. -/
lemma nodup_childrenOf (nodes : List Node) (parent : Option Nat) :
    ((childrenOf nodes parent).map Prod.snd).Nodup := by
  have all : (nodes.zipIdx.map Prod.snd).Nodup := by
    rw [List.zipIdx_map_snd]
    exact List.nodup_range'
  exact all.sublist (List.filter_sublist.map _)

/-- A bracket with text inside is written as it is put into the text. -/
lemma renderNode_bracket {node : Node} {first last : Char}
    (br : Scan.Brackets node.kind first last) (index : Nat) (inside : Text) :
    renderNode (fun _ => some inside) (node, index) =
      first :: Text.trim node.value ++ ' ' :: inside ++ [last, ' '] := by
  generalize kind : node.kind = k at br
  cases br <;> simp [renderNode, kind, renderBracket]

/-- A node stands alone unless it is a bracket that holds something, and then it is put into the
text as it is written with nothing inside. -/
lemma alone_iff {node : Node} {index : Nat} {put : Text} : Alone nodes node index put ↔
    (node.kind.IsBracket → childrenOf nodes (some index) = []) ∧
      put = renderNode (fun _ => none) (node, index) := by
  constructor
  · rintro (kind | kind | run | ⟨br, empty⟩)
    · exact ⟨fun br => by simp [kind, Kind.IsBracket] at br, by simp only [renderNode, kind]⟩
    · exact ⟨fun br => by simp [kind, Kind.IsBracket] at br, by simp only [renderNode, kind]⟩
    · refine ⟨fun br => ?_, (renderNode_run run _ index).symm⟩
      rcases run with kind | kind | kind <;> simp [kind, Kind.IsBracket] at br
    · refine ⟨fun _ => empty, ?_⟩
      generalize kind : node.kind = k at br
      cases br <;> simp [renderNode, kind, renderBracket]
  · rintro ⟨holds, rfl⟩
    cases kind : node.kind with
    | keyword => simpa only [renderNode, kind] using Alone.keyword kind
    | string => simpa only [renderNode, kind] using Alone.string kind
    | block =>
      have br : Scan.Brackets node.kind '{' '}' := kind ▸ .block
      simpa [renderNode, kind, renderBracket] using Alone.bracket br (holds (.inl kind))
    | paren =>
      have br : Scan.Brackets node.kind '(' ')' := kind ▸ .paren
      simpa [renderNode, kind, renderBracket] using Alone.bracket br (holds (.inr kind))
    | number => simpa only [renderNode, kind] using Alone.run (.inl kind)
    | array => simpa only [renderNode, kind] using Alone.run (.inr (.inl kind))
    | other => simpa only [renderNode, kind] using Alone.run (.inr (.inr kind))

/-- There is only one way to go. -/
lemma Writes.unique (h : Writes nodes row written text) (h' : Writes nodes row written' text') :
    written' = written ∧ text' = text := by
  induction h generalizing written' text' with
  | nil =>
    cases h'
    exact ⟨rfl, rfl⟩
  | alone alone _ ih =>
    obtain ⟨holds, rfl⟩ := alone_iff.1 alone
    cases h' with
    | alone alone' h' =>
      obtain ⟨-, rfl⟩ := alone_iff.1 alone'
      obtain ⟨rfl, rfl⟩ := ih h'
      exact ⟨rfl, rfl⟩
    | bracket br some _ _ => exact absurd (holds br.isBracket) some
  | bracket br some _ _ ih ih' =>
    cases h' with
    | alone alone _ => exact absurd ((alone_iff.1 alone).1 br.isBracket) some
    | bracket br' _ h' h'' =>
      obtain ⟨rfl, rfl⟩ := br.unique br'
      obtain ⟨rfl, rfl⟩ := ih h'
      obtain ⟨rfl, rfl⟩ := ih' h''
      exact ⟨rfl, rfl⟩

/-- The nodes of the row are written. -/
lemma Writes.row_subset (h : Writes nodes row written text) :
    ∀ pair ∈ row, pair.2 ∈ written := by
  induction h with
  | nil => exact nofun
  | alone _ _ ih =>
    intro pair mem
    rcases List.mem_cons.1 mem with rfl | mem
    · exact List.mem_cons_self
    · exact List.mem_cons_of_mem _ (ih pair mem)
  | bracket _ _ _ _ _ ih =>
    intro pair mem
    rcases List.mem_cons.1 mem with rfl | mem
    · exact List.mem_cons_self
    · exact List.mem_cons_of_mem _ (List.mem_append_right _ (ih pair mem))

/-- Every node that is written stands in a node of the row, or is one. -/
lemma Writes.chain (h : Writes nodes row written text) (mem : i ∈ written) :
    ∃ pair ∈ row, Relation.ReflTransGen (ParentAt nodes) i pair.2 := by
  induction h with
  | nil => cases mem
  | alone _ _ ih =>
    rcases List.mem_cons.1 mem with rfl | mem
    · exact ⟨_, List.mem_cons_self, .refl⟩
    · obtain ⟨pair, listed, chain⟩ := ih mem
      exact ⟨pair, List.mem_cons_of_mem _ listed, chain⟩
  | bracket _ _ _ _ ih ih' =>
    rcases List.mem_cons.1 mem with rfl | mem
    · exact ⟨_, List.mem_cons_self, .refl⟩
    · rcases List.mem_append.1 mem with mem | mem
      · obtain ⟨child, listed, chain⟩ := ih mem
        obtain ⟨found, hp⟩ := mem_childrenOf.1 listed
        exact ⟨_, List.mem_cons_self, chain.tail ⟨child.1, found, hp⟩⟩
      · obtain ⟨pair, listed, chain⟩ := ih' mem
        exact ⟨pair, List.mem_cons_of_mem _ listed, chain⟩

/-- The nodes of a row, each as it is in the list; the way outside is of the same length for all. -/
def Level (nodes : List Node) (links : Nat) (row : List (Node × Nat)) : Prop :=
  ∀ pair ∈ row, nodes[pair.2]? = some pair.1 ∧ Outward nodes pair.1.parent links

/-- From the nodes in a bracket, the way is as long as from the bracket's inside. -/
lemma level_childrenOf (h : Outward nodes parent links) :
    Level nodes links (childrenOf nodes parent) := by
  intro pair mem
  obtain ⟨found, hp⟩ := mem_childrenOf.1 mem
  exact ⟨found, hp ▸ h⟩

section
variable {node : Node} {index : Nat}

/-- The other nodes of a row are on the same level. -/
lemma Level.tail (h : Level nodes links ((node, index) :: row)) : Level nodes links row :=
  fun pair mem => h pair (List.mem_cons_of_mem _ mem)

/-- The nodes of a row are tied to the outside. -/
lemma Level.tiedAt (h : Level nodes links row) {pair : Node × Nat} (mem : pair ∈ row) :
    TiedAt nodes pair.2 links :=
  ⟨pair.1, h pair mem⟩

/-- What stands in a bracket of the row is one link further inside. -/
lemma Level.inner (h : Level nodes links ((node, index) :: row)) (br : node.kind.IsBracket) :
    Level nodes (links + 1) (childrenOf nodes (some index)) := by
  obtain ⟨found, outward⟩ := h _ List.mem_cons_self
  exact level_childrenOf (.bracket found br outward)

end

/-- Only nodes that are tied to the outside are written. -/
lemma Writes.tied (h : Writes nodes row written text) (level : Level nodes links row)
    (mem : i ∈ written) : ∃ n, links ≤ n ∧ TiedAt nodes i n := by
  induction h generalizing links with
  | nil => cases mem
  | alone _ _ ih =>
    rcases List.mem_cons.1 mem with rfl | mem
    · exact ⟨links, Nat.le_refl _, level.tiedAt List.mem_cons_self⟩
    · exact ih level.tail mem
  | bracket br _ _ _ ih ih' =>
    rcases List.mem_cons.1 mem with rfl | mem
    · exact ⟨links, Nat.le_refl _, level.tiedAt List.mem_cons_self⟩
    · rcases List.mem_append.1 mem with mem | mem
      · obtain ⟨n, le, tied⟩ := ih (level.inner br.isBracket) mem
        exact ⟨n, Nat.le_of_succ_le le, tied⟩
      · exact ih' level.tail mem

/-- With a bracket, all nodes directly in it are written. -/
lemma Writes.children (h : Writes nodes row written text) (level : Level nodes links row)
    {node : Node} (mem : p ∈ written) (found : nodes[p]? = some node) (br : node.kind.IsBracket)
    {child : Node × Nat} (hc : child ∈ childrenOf nodes (some p)) : child.2 ∈ written := by
  induction h generalizing links with
  | nil => cases mem
  | alone alone _ ih =>
    rcases List.mem_cons.1 mem with rfl | mem
    · obtain ⟨found', _⟩ := level _ List.mem_cons_self
      cases found.symm.trans found'
      rw [(alone_iff.1 alone).1 br] at hc
      cases hc
    · exact List.mem_cons_of_mem _ (ih level.tail mem)
  | bracket br' _ inner _ ih ih' =>
    apply List.mem_cons_of_mem
    rcases List.mem_cons.1 mem with rfl | mem
    · exact List.mem_append_left _ (inner.row_subset child hc)
    · rcases List.mem_append.1 mem with mem | mem
      · exact List.mem_append_left _ (ih (level.inner br'.isBracket) mem)
      · exact List.mem_append_right _ (ih' level.tail mem)

/-- A node of the row is not written with the other nodes of the row. -/
lemma Writes.not_mem {node : Node} {index : Nat} (h : Writes nodes row written text)
    (level : Level nodes links ((node, index) :: row)) (fresh : index ∉ row.map Prod.snd)
    (chain : Relation.ReflTransGen (ParentAt nodes) i index) : i ∉ written := by
  intro mem
  obtain ⟨pair, listed, chain'⟩ := h.chain mem
  have here : TiedAt nodes index links := level.tiedAt List.mem_cons_self
  have there : TiedAt nodes pair.2 links := level.tail.tiedAt listed
  -- of the two nodes one would have to be inside the other
  have same : index = pair.2 := by
    rcases chain.total_of_right_unique parentAt_rightUnique chain' with between | between
    · exact here.eq_of_chain there between
    · exact (there.eq_of_chain here between).symm
  exact fresh (same ▸ List.mem_map_of_mem listed)

/-- No node is written twice. -/
lemma Writes.nodup (h : Writes nodes row written text) (level : Level nodes links row)
    (distinct : (row.map Prod.snd).Nodup) : written.Nodup := by
  induction h generalizing links with
  | nil => exact .nil
  | alone _ rest ih =>
    obtain ⟨fresh, distinct⟩ := List.nodup_cons.1 distinct
    exact List.nodup_cons.2 ⟨rest.not_mem level fresh .refl, ih level.tail distinct⟩
  | @bracket node index first last inner inside row written text br _ within rest ih ih' =>
    obtain ⟨fresh, distinct⟩ := List.nodup_cons.1 distinct
    have below : index ∉ inner := by
      intro mem
      obtain ⟨n, le, tied⟩ := within.tied (level.inner br.isBracket) mem
      have := tied.unique (level.tiedAt List.mem_cons_self)
      omega
    have apart : List.Disjoint inner written := by
      intro j mem mem'
      obtain ⟨child, listed, chain⟩ := within.chain mem
      obtain ⟨found, hp⟩ := mem_childrenOf.1 listed
      exact rest.not_mem level fresh (chain.tail ⟨child.1, found, hp⟩) mem'
    refine List.nodup_cons.2 ⟨?_, ?_⟩
    · rw [List.mem_append]
      rintro (mem | mem)
      · exact below mem
      · exact rest.not_mem level fresh .refl mem
    · have nodup := ih (level.inner br.isBracket) (nodup_childrenOf _ _)
      exact nodup.append (ih' level.tail distinct) apart

/-! ### The end of the recursion -/

/-- What holds no nodes is written on its own. -/
lemma renderNode_alone {levels : Nat} {pair : Node × Nat}
    (holds : pair.1.kind.IsBracket → childrenOf nodes (some pair.2) = []) :
    renderNode (renderInside nodes levels) pair = renderNode (fun _ => none) pair := by
  by_cases br : pair.1.kind.IsBracket
  · refine renderNode_congr rfl rfl ?_
    rw [renderInside_eq]
    exact if_pos (holds br)
  · obtain ⟨node, index⟩ := pair
    cases kind : node.kind with
    | block => exact absurd (.inl kind) br
    | paren => exact absurd (.inr kind) br
    | _ => simp only [renderNode, kind]

/-- A row can be written if the brackets in it can. -/
lemma writes_row {levels : Nat} (inner : ∀ pair ∈ row, pair.1.kind.IsBracket →
      ∃ written, Writes nodes (childrenOf nodes (some pair.2)) written
        (renderChildren nodes levels (some pair.2))) :
    ∃ written, Writes nodes row written (row.flatMap (renderNode (renderInside nodes levels))) := by
  induction row with
  | nil => exact ⟨[], .nil⟩
  | cons pair row ih =>
    obtain ⟨written, rest⟩ := ih fun pair mem => inner pair (List.mem_cons_of_mem _ mem)
    rw [List.flatMap_cons]
    by_cases holds : pair.1.kind.IsBracket → childrenOf nodes (some pair.2) = []
    · rw [renderNode_alone holds]
      exact ⟨_, .alone (alone_iff.2 ⟨holds, rfl⟩) rest⟩
    · obtain ⟨br, some⟩ := Classical.not_imp.1 holds
      obtain ⟨within, h⟩ := inner pair List.mem_cons_self br
      have inside : renderInside nodes levels pair.2 =
          .some (renderChildren nodes levels (.some pair.2)) :=
        (renderInside_eq nodes levels pair.2).trans (if_neg some)
      obtain ⟨first, last, br⟩ := Scan.exists_brackets br
      have put : renderNode (renderInside nodes levels) pair = first :: Text.trim pair.1.value ++
          ' ' :: renderChildren nodes levels (.some pair.2) ++ [last, ' '] :=
        (renderNode_congr rfl rfl inside).trans (renderNode_bracket br pair.2 _)
      rw [put]
      exact ⟨_, .bracket br some h rest⟩

/-- The recursion ends, because the way outside is never longer than there are nodes. -/
lemma Outward.exists_writes {levels : Nat} (h : Outward nodes parent links)
    (enough : nodes.length < links + levels) :
    ∃ written, Writes nodes (childrenOf nodes parent) written
      (renderChildren nodes levels parent) := by
  induction levels generalizing parent links with
  | zero =>
    have := h.links_le
    omega
  | succ levels ih =>
    refine writes_row fun pair mem br => ?_
    obtain ⟨found, outward⟩ := level_childrenOf h pair mem
    exact ih (.bracket found br outward) (by omega)

/-- All nodes that are tied to the outside are written. -/
lemma Writes.mem_of_tied (h : Writes nodes (childrenOf nodes none) written text)
    (tied : TiedAt nodes i links) : i ∈ written := by
  obtain ⟨node, found, outward⟩ := tied
  have level : Level nodes 0 (childrenOf nodes none) := level_childrenOf .outside
  generalize e : node.parent = parent at outward
  induction outward generalizing i node with
  | outside => exact h.row_subset (node, i) (mem_childrenOf.2 ⟨found, e⟩)
  | bracket found' br _ ih =>
    have listed : (node, i) ∈ childrenOf nodes (some _) := mem_childrenOf.2 ⟨found, e⟩
    exact h.children level (ih _ found' rfl) found' br listed

/-- Any list of nodes is written in a recursion that ends, whatever the parents of the nodes are,
and there is only one way for it to go. No node is written twice, and a node is written exactly if
its parents lead outside and only through brackets. -/
theorem render_ends (nodes : List Node) : ∃ written text,
    Writes nodes (childrenOf nodes none) written text ∧
    (∀ written' text', Writes nodes (childrenOf nodes none) written' text' →
      written' = written ∧ text' = text) ∧
    render nodes = Text.trimEnd text ∧
    written.Nodup ∧ ∀ i, i ∈ written ↔ ∃ links, TiedAt nodes i links := by
  have outward : Outward nodes none 0 := .outside
  have enough : nodes.length < 0 + (nodes.length + 1) := by omega
  obtain ⟨written, h⟩ := outward.exists_writes enough
  have level := level_childrenOf outward
  refine ⟨written, _, h, fun _ _ h' => h.unique h', rfl,
    h.nodup level (nodup_childrenOf nodes none), fun i => ⟨fun mem => ?_, ?_⟩⟩
  · obtain ⟨n, _, tied⟩ := h.tied level mem
    exact ⟨n, tied⟩
  · rintro ⟨links, tied⟩
    exact h.mem_of_tied tied

-- a parent that comes later, and parents that lead round, to a keyword and to no node
example : render [⟨⟨.other, some 1⟩, ['a'], none, none⟩, ⟨⟨.block, none⟩, ['b'], none, none⟩,
    ⟨⟨.paren, some 3⟩, [], none, none⟩, ⟨⟨.paren, some 2⟩, [], none, none⟩,
    ⟨⟨.block, some 4⟩, [], none, none⟩, ⟨⟨.keyword, none⟩, ['k'], none, none⟩,
    ⟨⟨.other, some 5⟩, ['c'], none, none⟩, ⟨⟨.other, some 9⟩, ['d'], none, none⟩] =
      "\x7bb a \x7d @k".toList := by
  decide

end Sigil.Nodes
