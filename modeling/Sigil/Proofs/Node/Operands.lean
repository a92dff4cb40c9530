import Mathlib.Data.List.Nodup
import Mathlib.Data.Nat.Find
import Mathlib.Tactic.Common
import Sigil.Node.Query
import Sigil.Node.Scan

/-!
# Operands and their statements

The operands of a statement are found one at a time, each by a search that starts anew at the
keyword. `Nodes.operandsFrom` is what all these searches together find, as a list: it has exactly
the operands (`mem_operandsFrom`), in the order of the nodes (`pairwise_operandsFrom`), and the
search for one of them counts it off (`findOperand_eq`). That no two statements share an operand is
a matter of `IsOperand` alone: a keyword between a statement and a node would be nearer to the node.
-/

namespace Sigil.Nodes

/-- At the index there is a keyword that stands directly in `parent`. -/
def KeywordAt (nodes : List Node) (i : Nat) (parent : Option Nat) : Prop :=
  ∃ word, nodes[i]? = some word ∧ word.kind = .keyword ∧ word.parent = parent

/-- The node at `j` is an operand of the statement at `k`: a later sibling of the wanted kind, which
is not that of keywords, with no keyword among the siblings between them. -/
def IsOperand (nodes : List Node) (k : Nat) (kind : Kind) (j : Nat) : Prop :=
  ∃ word node, nodes[k]? = some word ∧ nodes[j]? = some node ∧ k < j ∧
    node.parent = word.parent ∧ node.kind = kind ∧ kind ≠ .keyword ∧
    ∀ i, k < i → i < j → ¬ KeywordAt nodes i word.parent

/-! ### All operands at once -/

/-- The indices of the nodes of a kind directly in `parent`, in a part of a list that starts at an
index, up to the next keyword directly in `parent`. -/
def operandsFrom (parent : Option Nat) (kind : Kind) : (i : Nat) → List Node → List Nat
  | _, [] => []
  | i, node :: rest =>
    if node.parent ≠ parent then
      operandsFrom parent kind (i + 1) rest
    else if node.kind = .keyword then
      []
    else if node.kind = kind then
      i :: operandsFrom parent kind (i + 1) rest
    else
      operandsFrom parent kind (i + 1) rest

section
variable {parent : Option Nat} {kind : Kind} {nth i j : Nat} {nodes : List Node}

/-- The search for an operand counts it off. -/
lemma findOperand_eq :
    findOperand parent kind nth i nodes = (operandsFrom parent kind i nodes)[nth]? := by
  induction nodes generalizing nth i with
  | nil => rfl
  | cons node rest ih =>
    unfold findOperand operandsFrom
    split_ifs
    · exact ih
    · rfl
    · cases nth with
      | zero => rfl
      | succ nth => exact ih
    · exact ih

/-- What holds of some node of a list holds of the first one or of one behind it. -/
lemma exists_node_cons {node : Node} {rest : List Node} {P : Nat → Node → Prop} :
    (∃ d n, (node :: rest)[d]? = some n ∧ P d n) ↔
      P 0 node ∨ ∃ d n, rest[d]? = some n ∧ P (d + 1) n := by
  constructor
  · rintro ⟨_ | d, n, hn, h⟩
    · cases hn
      exact .inl h
    · exact .inr ⟨d, n, hn, h⟩
  · rintro (h | ⟨d, n, hn, h⟩)
    · exact ⟨0, node, rfl, h⟩
    · exact ⟨d + 1, n, hn, h⟩

/-- The first node is a keyword of the level in question if its kind and its parent are right. -/
lemma keywordAt_zero {node : Node} {rest : List Node} :
    KeywordAt (node :: rest) 0 parent ↔ node.kind = .keyword ∧ node.parent = parent := by
  simp [KeywordAt]

/-- Keywords behind the first node are those of the rest. -/
lemma keywordAt_succ {node : Node} {rest : List Node} :
    KeywordAt (node :: rest) (i + 1) parent ↔ KeywordAt rest i parent :=
  Iff.rfl

/-- Keywords of the rest of a list are those of the list further on. -/
lemma keywordAt_drop {n : Nat} :
    KeywordAt (nodes.drop n) i parent ↔ KeywordAt nodes (n + i) parent := by
  simp [KeywordAt, List.getElem?_drop]

/-- All operands are found, and nothing else. -/
lemma mem_operandsFrom : j ∈ operandsFrom parent kind i nodes ↔
    ∃ d node, nodes[d]? = some node ∧ j = d + i ∧ node.parent = parent ∧ node.kind = kind ∧
      kind ≠ .keyword ∧ ∀ e < d, ¬ KeywordAt nodes e parent := by
  induction nodes generalizing i with
  | nil => simp [operandsFrom]
  | cons node rest ih =>
    have shift : ∀ d, d + 1 + i = d + (i + 1) := fun d => by omega
    rw [operandsFrom, exists_node_cons]
    simp only [Nat.forall_lt_succ_left, keywordAt_zero, keywordAt_succ, shift]
    split_ifs with outside keyword wanted
    · simp [ih, outside]
    · -- nothing is found from a keyword on
      have sibling := not_not.1 outside
      refine iff_of_false List.not_mem_nil ?_
      rintro (⟨-, -, wanted, other, -⟩ | ⟨d, n, -, -, -, -, -, clear, -⟩)
      · exact other (wanted.symm.trans keyword)
      · exact clear ⟨keyword, sibling⟩
    · have other : kind ≠ .keyword := fun e => keyword (wanted.trans e)
      simp [ih, wanted, other, not_not.1 outside]
    · simp [ih, wanted, keyword]

/-- The operands are found in the order of the nodes. -/
lemma pairwise_operandsFrom : (operandsFrom parent kind i nodes).Pairwise (· < ·) := by
  induction nodes generalizing i with
  | nil => exact .nil
  | cons node rest ih =>
    unfold operandsFrom
    split_ifs
    · exact ih
    · exact .nil
    · refine .cons (fun j mem => ?_) ih
      obtain ⟨d, -, -, rfl, -⟩ := mem_operandsFrom.1 mem
      omega
    · exact ih

end

/-! ### Statements -/

section
variable {nodes : List Node} {k k' nth nth' i j : Nat} {kind kind' : Kind} {parent : Option Nat}

/-- The operands of a kind that a statement has, in order, are what is found for its keyword. -/
lemma exists_operands (nodes : List Node) (k : Nat) (kind : Kind) :
    ∃ operands : List Nat, operands.Pairwise (· < ·) ∧
      (∀ j, j ∈ operands ↔ IsOperand nodes k kind j) ∧
      ∀ nth, operand nodes k kind nth = operands[nth]? := by
  cases hw : nodes[k]? with
  | none => exact ⟨[], .nil, by simp [IsOperand, hw], by simp [operand, hw]⟩
  | some word =>
    refine ⟨operandsFrom word.parent kind (k + 1) (nodes.drop (k + 1)), pairwise_operandsFrom,
      fun j => ?_, fun nth => by simp [operand, hw, findOperand_eq]⟩
    simp only [mem_operandsFrom, keywordAt_drop, List.getElem?_drop]
    constructor
    · rintro ⟨d, node, hn, rfl, hp, hk, other, clear⟩
      rw [Nat.add_comm] at hn
      refine ⟨word, node, hw, hn, by omega, hp, hk, other, fun i gt lt => ?_⟩
      obtain ⟨e, rfl⟩ := Nat.exists_eq_add_of_le (Nat.succ_le_of_lt gt)
      exact clear e (by omega)
    · rintro ⟨word', node, hw', hn, lt, hp, hk, other, clear⟩
      cases hw.symm.trans hw'
      obtain ⟨d, rfl⟩ := Nat.exists_eq_add_of_le (Nat.succ_le_of_lt lt)
      refine ⟨d, node, hn, Nat.add_comm _ _, hp, hk, other, fun e lt => ?_⟩
      exact clear _ (by omega) (by omega)

/-- What is found is an operand. -/
lemma isOperand_of_operand (h : operand nodes k kind nth = some j) : IsOperand nodes k kind j := by
  obtain ⟨operands, -, mem, found⟩ := exists_operands nodes k kind
  exact (mem j).1 (List.mem_of_getElem? ((found nth).symm.trans h))

/-- An operand is found under one number. -/
lemma operand_inj (h : operand nodes k kind nth = some j)
    (h' : operand nodes k kind nth' = some j) : nth = nth' := by
  obtain ⟨operands, sorted, -, found⟩ := exists_operands nodes k kind
  rw [found] at h h'
  have nodup : operands.Nodup := sorted.imp Nat.ne_of_lt
  exact (List.getElem?_inj (List.getElem?_eq_some_iff.1 h).1 nodup).1 (h.trans h'.symm)

/-- The keyword of a statement is the nearest one in front of its operands. -/
lemma IsOperand.nearest (h : IsOperand nodes k kind j) (keyword : KeywordAt nodes k parent)
    {node : Node} (hn : nodes[j]? = some node) :
    node.parent = parent ∧ node.kind = kind ∧ k < j ∧
      ∀ i, k < i → i < j → ¬ KeywordAt nodes i parent := by
  obtain ⟨word, node', hw, hn', lt, hp, hk, -, clear⟩ := h
  obtain ⟨word', hw', -, rfl⟩ := keyword
  cases hw.symm.trans hw'
  cases hn.symm.trans hn'
  exact ⟨hp, hk, lt, clear⟩

/-- A node is an operand of one statement at most. -/
lemma IsOperand.unique (h : IsOperand nodes k kind j) (h' : IsOperand nodes k' kind' j)
    {parent' : Option Nat} (keyword : KeywordAt nodes k parent)
    (keyword' : KeywordAt nodes k' parent') : k = k' ∧ kind = kind' := by
  obtain ⟨_, node, -, hn, -⟩ := id h
  obtain ⟨rfl, rfl, lt, clear⟩ := h.nearest keyword hn
  obtain ⟨rfl, rfl, lt', clear'⟩ := h'.nearest keyword' hn
  -- the earlier of two keywords would have the later one in between
  rcases Nat.lt_trichotomy k k' with before | rfl | behind
  · exact absurd keyword' (clear k' before lt')
  · exact ⟨rfl, rfl⟩
  · exact absurd keyword (clear' k behind lt)

/-- Among the keywords in front of a node, directly in a bracket, there is a last one. -/
lemma exists_nearest (lt : i < j) (h : KeywordAt nodes i parent) :
    ∃ k < j, KeywordAt nodes k parent ∧ ∀ i, k < i → i < j → ¬ KeywordAt nodes i parent := by
  classical
  let k := Nat.findGreatest (KeywordAt nodes · parent) (j - 1)
  have le : k ≤ j - 1 := Nat.findGreatest_le _
  refine ⟨k, by omega, Nat.findGreatest_spec (P := (KeywordAt nodes · parent)) (by omega) h, ?_⟩
  exact fun i gt lt => Nat.findGreatest_is_greatest gt (by omega)

end

/-- Every operand belongs to exactly one statement. A node that is no keyword, but has one among its
earlier siblings, is found for exactly one keyword and under exactly one number, and this keyword is
the nearest of them. What is found for a keyword and a kind are the siblings of this kind up to the
next keyword, all of them and in their order. So nothing is found for two keywords. -/
theorem operand_of_one_statement (nodes : List Node) :
    (∀ (j : Nat) (node : Node), nodes[j]? = some node → node.kind ≠ .keyword →
      (∃ i < j, KeywordAt nodes i node.parent) →
      ∃ k nth, (k < j ∧ KeywordAt nodes k node.parent ∧
          ∀ i, k < i → i < j → ¬ KeywordAt nodes i node.parent) ∧
        operand nodes k node.kind nth = some j ∧
        ∀ k' nth' parent, KeywordAt nodes k' parent →
          operand nodes k' node.kind nth' = some j → k' = k ∧ nth' = nth) ∧
    (∀ (k : Nat) (kind : Kind), ∃ operands : List Nat, operands.Pairwise (· < ·) ∧
      (∀ j, j ∈ operands ↔ IsOperand nodes k kind j) ∧
      ∀ nth, operand nodes k kind nth = operands[nth]?) ∧
    ∀ k k' kind kind' nth nth' parent parent' j, KeywordAt nodes k parent →
      KeywordAt nodes k' parent' → operand nodes k kind nth = some j →
      operand nodes k' kind' nth' = some j → k = k' ∧ kind = kind' ∧ nth = nth' := by
  have unique : ∀ {k k' kind kind' nth nth' parent parent' j}, KeywordAt nodes k parent →
      KeywordAt nodes k' parent' → operand nodes k kind nth = some j →
      operand nodes k' kind' nth' = some j → k = k' ∧ kind = kind' ∧ nth = nth' := by
    intro k k' kind kind' nth nth' parent parent' j keyword keyword' found found'
    obtain ⟨rfl, rfl⟩ :=
      (isOperand_of_operand found).unique (isOperand_of_operand found') keyword keyword'
    exact ⟨rfl, rfl, operand_inj found found'⟩
  refine ⟨?_, exists_operands nodes, fun _ _ _ _ _ _ _ _ _ => unique⟩
  rintro j node hn other ⟨i, before, keyword⟩
  -- the nearest keyword before the node has it as an operand, and `unique` excludes the others
  obtain ⟨k, lt, keyword, clear⟩ := exists_nearest before keyword
  have isOperand : IsOperand nodes k node.kind j := by
    obtain ⟨word, hw, -, hp⟩ := id keyword
    exact ⟨word, node, hw, hn, lt, hp.symm, rfl, other, hp ▸ clear⟩
  obtain ⟨operands, -, mem, found⟩ := exists_operands nodes k node.kind
  obtain ⟨nth, hj⟩ := List.getElem?_of_mem ((mem j).2 isOperand)
  refine ⟨k, nth, ⟨lt, keyword, clear⟩, (found nth).trans hj, fun k' nth' _ keyword' found' => ?_⟩
  obtain ⟨same, -, number⟩ := unique keyword' keyword found' ((found nth).trans hj)
  exact ⟨same, number⟩

/-- Behind a function with a statement in its block, the last block is the third one of the
function, and no other statement has it. -/
theorem operand_of_one_statement_nested :
    let nodes := Nodes.ofSource "@func \x7bf\x7d (a) \x7b @print \"x\" \x7d \x7bextra\x7d".toList
    ∃ k nth, operand nodes k .block nth = some 6 ∧ ∀ k' nth' parent, KeywordAt nodes k' parent →
      operand nodes k' .block nth' = some 6 → k' = k ∧ nth' = nth := by
  intro nodes
  let block : Node := { kind := .block, parent := none, value := "extra".toList }
  have last : nodes[6]? = some block := by decide +kernel
  have keyword : ∃ i < 6, KeywordAt nodes i block.parent := by
    refine ⟨0, by decide, ?_⟩
    have func : nodes[0]? = some { kind := .keyword, parent := none, value := "func".toList } := by
      decide +kernel
    exact ⟨_, func, rfl, rfl⟩
  obtain ⟨k, nth, -, found, unique⟩ :=
    (operand_of_one_statement nodes).1 6 block last (by decide) keyword
  exact ⟨k, nth, found, unique⟩

end Sigil.Nodes
