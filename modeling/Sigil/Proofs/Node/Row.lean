import Mathlib.Tactic.Common
import Sigil.Proofs.Node.Forest
import Sigil.Proofs.Node.Scanning

/-!
# Rows of nodes

The flat list of nodes stands for a forest. A `Row` is this forest itself: nodes that stand side by
side, each bracket with the row inside it. `Row.nodes` lays a row out flat again, given the bracket
around it and the index at which it starts. Rows are built from their start, because this is the
order in which a source is read.

Every source is read as a row (`ofSource_row`), and a regular one: its keywords, strings, brackets
and runs hold only the characters that reading can put there, and runs stand outside all brackets.
The proof follows the scanner. What one character can do is said once, in `Move`; while brackets
are open, the nodes read so far are a `Spine` of rows, one for each open bracket, and a last row
that is still growing.
-/

namespace Sigil

/-! ### One character -/

namespace Scan

/-- The characters that open and close a bracket of a kind. -/
inductive Brackets : Kind → (first last : Char) → Prop where
  | block : Brackets .block '{' '}'
  | paren : Brackets .paren '(' ')'

/-- What has a pair of brackets is a bracket. -/
lemma Brackets.isBracket {kind first last} (h : Brackets kind first last) : kind.IsBracket := by
  cases h with
  | block => exact .inl rfl
  | paren => exact .inr rfl

/-- Each kind has one pair of brackets. -/
lemma Brackets.unique {kind first last first' last'} (h : Brackets kind first last)
    (h' : Brackets kind first' last') : first' = first ∧ last' = last := by
  cases h with
  | block =>
    cases h'
    exact ⟨rfl, rfl⟩
  | paren =>
    cases h'
    exact ⟨rfl, rfl⟩

/-- What one character can do to a scan. -/
inductive Move (s : Scan) (c : Char) : Scan → Prop where
  | pause :
    isBreak c = true → s.mode ≠ .string → Move s c { s with mode := .between }
  | drop :
    isBreak c = true → s.mode = .string → Move s c s
  | endString :
    s.mode = .string → Move s c { s with mode := .between }
  | inString :
    s.mode = .string → isBreak c = false → c ≠ '"' → Move s c (s.pushLast c)
  | opens {kind first last} :
    Brackets kind first last → c = first → s.mode ≠ .string → Move s c (s.openBracket kind)
  | closes {kind first last} :
    Brackets kind first last → c = last → s.mode ≠ .string → Move s c (s.closeBracket kind)
  | startString :
    s.mode ≠ .string → Move s c (s.create .string .string)
  | startKeyword :
    s.mode ≠ .string → Move s c (s.create .keyword .keyword)
  | endKeyword :
    s.mode = .keyword → Move s c { s with mode := .between }
  | inKeyword :
    s.mode = .keyword → isPlain c = true → c ≠ ' ' → Move s c (s.pushLast c)
  | inBracket {kind top outer} :
    s.mode ≠ .string → s.mode ≠ .keyword → isPlain c = true →
    s.opened = (kind, top) :: outer → Move s c (s.pushAt top c)
  | gap :
    s.opened = [] → s.mode ≠ .string → Move s c { s with mode := .between }
  | inRun :
    s.opened = [] → isPlain c = true → c ≠ ' ' → s.mode = .run → Move s c (s.pushLast c)
  | startRun :
    s.opened = [] → isPlain c = true → c ≠ ' ' → s.mode ≠ .string →
    Move s c ((s.create .other .run).pushLast c)

/-- A plain character that ends no string and no keyword is a move. -/
lemma plain_move {s : Scan} {c : Char} (hs : s.mode ≠ .string) (hk : s.mode ≠ .keyword)
    (hp : isPlain c = true) : Move s c (s.plain c) := by
  unfold plain
  split
  · rename_i opened
    exact .inBracket hs hk hp opened
  · rename_i opened
    split
    · exact .gap opened hs
    · rename_i space
      split
      · rename_i run
        exact .inRun opened hp space run
      · exact .startRun opened hp space hs

/-- The scanner makes one of these moves. -/
lemma step_move (s : Scan) (c : Char) : Move s c (s.step c) := by
  unfold step
  by_cases hb : isBreak c = true
  · rw [if_pos hb]
    by_cases hs : s.mode = .string
    · rw [if_pos hs]
      exact .drop hb hs
    · rw [if_neg hs]
      exact .pause hb hs
  rw [if_neg hb]
  by_cases hs : s.mode = .string
  · rw [if_pos hs]
    by_cases hq : c = '"'
    · rw [if_pos hq]
      exact .endString hs
    · rw [if_neg hq]
      exact .inString hs (Bool.eq_false_iff.2 hb) hq
  rw [if_neg hs]
  by_cases h₁ : c = '{'
  · rw [if_pos h₁]
    exact .opens .block h₁ hs
  rw [if_neg h₁]
  by_cases h₂ : c = '('
  · rw [if_pos h₂]
    exact .opens .paren h₂ hs
  rw [if_neg h₂]
  by_cases h₃ : c = '}'
  · rw [if_pos h₃]
    exact .closes .block h₃ hs
  rw [if_neg h₃]
  by_cases h₄ : c = ')'
  · rw [if_pos h₄]
    exact .closes .paren h₄ hs
  rw [if_neg h₄]
  by_cases h₅ : c = '"'
  · rw [if_pos h₅]
    exact .startString hs
  rw [if_neg h₅]
  by_cases h₆ : c = '@'
  · rw [if_pos h₆]
    exact .startKeyword hs
  rw [if_neg h₆]
  -- whatever is left stands for itself
  have hp : isPlain c = true := by simp [isPlain, isMark, hb, h₁, h₂, h₃, h₄, h₅, h₆]
  by_cases hk : s.mode = .keyword
  · rw [if_pos hk]
    by_cases space : c = ' '
    · rw [if_pos space]
      exact .endKeyword hk
    · rw [if_neg space]
      exact .inKeyword hk hp space
  · rw [if_neg hk]
    exact plain_move hs hk hp

end Scan

/-! ### Rows -/

/-- Nodes side by side, each bracket with the row inside it. -/
inductive Row where
  | nil
  | leaf (before : Row) (kind : Kind) (value : Text)
  | bracket (before : Row) (kind : Kind) (value : Text) (inside : Row)

namespace Row

/-- The number of nodes in a row and inside it. -/
def size : Row → Nat
  | nil => 0
  | leaf before _ _ => before.size + 1
  | bracket before _ _ inside => before.size + 1 + inside.size

/-- The nodes in source order, for a row that stands in `parent` and starts at an index. -/
def nodes : Row → (parent : Option Nat) → (start : Nat) → List Node
  | nil, _, _ => []
  | leaf before kind value, parent, start =>
    before.nodes parent start ++ [{ kind, parent, value }]
  | bracket before kind value inside, parent, start =>
    before.nodes parent start ++ { kind, parent, value } ::
      inside.nodes (some (start + before.size)) (start + before.size + 1)

/-- A row has as many nodes as its size says. -/
@[simp] lemma length_nodes (row : Row) (parent : Option Nat) (start : Nat) :
    (row.nodes parent start).length = row.size := by
  induction row generalizing parent start with
  | nil => rfl
  | leaf before kind value ih => simp [nodes, size, ih]
  | bracket before kind value inside ih ih' =>
    simp only [nodes, size, List.length_append, List.length_cons, ih, ih']
    omega

/-- A node of a row stands directly in it, or in a bracket of the row. -/
lemma parent_of_mem {row : Row} {parent : Option Nat} {start : Nat} {node : Node}
    (h : node ∈ row.nodes parent start) :
    node.parent = parent ∨ ∃ p, node.parent = some p ∧ start ≤ p ∧ p < start + row.size := by
  induction row generalizing parent start with
  | nil => cases h
  | leaf before kind value ih =>
    rw [size]
    rcases List.mem_append.1 h with h | h
    · obtain e | ⟨p, e, le, lt⟩ := ih h
      · exact .inl e
      · exact .inr ⟨p, e, le, by omega⟩
    · rw [List.mem_singleton.1 h]
      exact .inl rfl
  | bracket before kind value inside ih ih' =>
    rw [size]
    rcases List.mem_append.1 h with h | h
    · obtain e | ⟨p, e, le, lt⟩ := ih h
      · exact .inl e
      · exact .inr ⟨p, e, le, by omega⟩
    · rcases List.mem_cons.1 h with rfl | h
      · exact .inl rfl
      · obtain e | ⟨p, e, le, lt⟩ := ih' h
        · exact .inr ⟨_, e, by omega, by omega⟩
        · exact .inr ⟨p, e, by omega, by omega⟩

/-- In a row that starts behind its bracket, every node stands in an earlier one. -/
lemma parent_lt {row : Row} {parent : Option Nat} {start p : Nat} {node : Node}
    (h : ∀ q ∈ parent, q < start) (mem : node ∈ row.nodes parent start) (e : p ∈ node.parent) :
    p < start + row.size := by
  obtain e' | ⟨q, e', _, lt⟩ := parent_of_mem mem
  · exact Nat.lt_add_right _ (h p (e' ▸ e))
  · cases e'.symm.trans e
    exact lt

/-- What stands in a bracket has the bracket or a later node as its parent. -/
lemma le_parent {inside : Row} {index : Nat} {node : Node}
    (mem : node ∈ inside.nodes (some index) (index + 1)) :
    ∃ p, node.parent = some p ∧ index ≤ p := by
  obtain e | ⟨p, e, le, _⟩ := parent_of_mem mem
  · exact ⟨index, e, Nat.le_refl _⟩
  · exact ⟨p, e, Nat.le_of_succ_le le⟩

/-- The rows that can be read. Inside brackets there are no runs. -/
inductive Regular : (outside : Bool) → Row → Prop where
  | nil {outside} :
    Regular outside .nil
  | keyword {outside before value} :
    Regular outside before → (∀ c ∈ value, Scan.isPlain c = true ∧ c ≠ ' ') →
    Regular outside (.leaf before .keyword value)
  | string {outside before value} :
    Regular outside before → (∀ c ∈ value, Scan.isBreak c = false ∧ c ≠ '"') →
    Regular outside (.leaf before .string value)
  | run {before value} :
    Regular true before → value ≠ [] → (∀ c ∈ value, Scan.isPlain c = true ∧ c ≠ ' ') →
    Regular true (.leaf before .other value)
  | bracket {outside before kind value inside} :
    Regular outside before → kind.IsBracket → (∀ c ∈ value, Scan.isPlain c = true) →
    Regular false inside → Regular outside (.bracket before kind value inside)

variable {outside : Bool} {before : Row} {value : Text} {c : Char}

/-- A keyword at the end of a row can have one more plain character. -/
lemma Regular.push_keyword (h : Regular outside (.leaf before .keyword value))
    (hp : Scan.isPlain c = true) (space : c ≠ ' ') :
    Regular outside (.leaf before .keyword (value ++ [c])) := by
  cases h with
  | keyword h text =>
    exact .keyword h (List.forall_mem_append.2 ⟨text, List.forall_mem_singleton.2 ⟨hp, space⟩⟩)

/-- A string at the end of a row can have one more character. -/
lemma Regular.push_string (h : Regular outside (.leaf before .string value))
    (hb : Scan.isBreak c = false) (hq : c ≠ '"') :
    Regular outside (.leaf before .string (value ++ [c])) := by
  cases h with
  | string h text =>
    exact .string h (List.forall_mem_append.2 ⟨text, List.forall_mem_singleton.2 ⟨hb, hq⟩⟩)

/-- A run at the end of a row can have one more plain character. -/
lemma Regular.push_run (h : Regular outside (.leaf before .other value))
    (hp : Scan.isPlain c = true) (space : c ≠ ' ') :
    Regular outside (.leaf before .other (value ++ [c])) := by
  cases h with
  | run h _ text =>
    apply Regular.run h (List.append_ne_nil_of_right_ne_nil _ (List.cons_ne_nil _ _))
    exact List.forall_mem_append.2 ⟨text, List.forall_mem_singleton.2 ⟨hp, space⟩⟩

end Row

/-! ### Reading rows -/

/-- The kind of the node that is being read. -/
def Mode.kind? : Mode → Option Kind
  | .between => none
  | .keyword => some .keyword
  | .string => some .string
  | .run => some .other

namespace Scan

/-- The index of the innermost of some open brackets. -/
abbrev innermost (opened : List (Kind × Nat)) : Option Nat :=
  Scan.parent { opened }

/-- The nodes up to the innermost open bracket: for every open bracket, the row in front of it and
the bracket itself. -/
inductive Spine : List Node → (opened : List (Kind × Nat)) → Prop where
  | nil :
    Spine [] []
  | cons {nodes opened kind value} {row : Row} :
    Spine nodes opened → row.Regular opened.isEmpty → kind.IsBracket →
    (∀ c ∈ value, isPlain c = true) →
    Spine (nodes ++ row.nodes (innermost opened) nodes.length ++
        [{ kind, parent := innermost opened, value }])
      ((kind, nodes.length + row.size) :: opened)

/-- What was read is a spine and a row behind it, whose last node is the one being read. -/
def Grows (s : Scan) : Prop :=
  ∃ (nodes : List Node) (row : Row), Spine nodes s.opened ∧ row.Regular s.opened.isEmpty ∧
    s.nodes = nodes ++ row.nodes (innermost s.opened) nodes.length ∧
    ∀ kind ∈ s.mode.kind?, ∃ before value, row = .leaf before kind value

/-- Nothing that was read is a row of nothing. -/
lemma Grows.empty : Grows {} :=
  ⟨[], .nil, .nil, .nil, rfl, nofun⟩

section
variable {s : Scan} {c : Char}

/-- Between two nodes, the row is what it was. -/
lemma Grows.between (h : s.Grows) : { s with mode := .between }.Grows := by
  obtain ⟨nodes, row, spine, regular, e, -⟩ := h
  exact ⟨nodes, row, spine, regular, e, nofun⟩

/-- A node that is started comes last in the row. -/
lemma Grows.create (h : s.Grows) {kind : Kind} {mode : Mode} (hm : mode.kind? = some kind)
    (leaf : ∀ {row : Row}, row.Regular s.opened.isEmpty →
      (Row.leaf row kind []).Regular s.opened.isEmpty) : (s.create kind mode).Grows := by
  obtain ⟨nodes, row, spine, regular, e, -⟩ := h
  refine ⟨nodes, .leaf row kind [], spine, leaf regular, ?_, ?_⟩
  · simp [Scan.create, Row.nodes, e, Node.empty, innermost, Scan.parent]
  · intro kind' mem
    rw [Scan.create, hm] at mem
    cases mem
    exact ⟨row, [], rfl⟩

/-- A character goes into the node that is being read. -/
lemma Grows.pushLast (h : s.Grows) {kind : Kind} (hm : s.mode.kind? = some kind)
    (leaf : ∀ {before : Row} {value}, (Row.leaf before kind value).Regular s.opened.isEmpty →
      (Row.leaf before kind (value ++ [c])).Regular s.opened.isEmpty) : (s.pushLast c).Grows := by
  obtain ⟨nodes, row, spine, regular, e, last⟩ := h
  obtain ⟨before, value, rfl⟩ := last kind hm
  refine ⟨nodes, .leaf before kind (value ++ [c]), spine, leaf regular, ?_, ?_⟩
  · obtain ⟨all, mode, opened⟩ := s
    simp only at e
    subst e
    rw [Row.nodes, ← List.append_assoc, pushLast_snoc, Row.nodes, ← List.append_assoc]
    rfl
  · intro kind' mem
    cases Option.some.inj (hm.symm.trans mem)
    exact ⟨before, value ++ [c], rfl⟩

/-- A bracket that opens ends the row in front of it, and a new row begins inside. -/
lemma Grows.openBracket (h : s.Grows) {kind : Kind} (br : kind.IsBracket) :
    (s.openBracket kind).Grows := by
  obtain ⟨nodes, row, spine, regular, e, -⟩ := h
  obtain ⟨all, mode, opened⟩ := s
  simp only at spine regular e
  have noText : ∀ c ∈ ([] : Text), isPlain c = true := nofun
  have spine' := Spine.cons spine regular br noText
  rw [← row.length_nodes (innermost opened) nodes.length, ← List.length_append, ← e] at spine'
  exact ⟨_, .nil, spine', .nil, (List.append_nil _).symm, nofun⟩

/-- A bracket that is closed becomes the last one of the row in front of it. -/
lemma Grows.closeBracket (h : s.Grows) (kind : Kind) : (s.closeBracket kind).Grows := by
  obtain ⟨nodes, row, spine, regular, e, -⟩ := id h
  obtain ⟨all, mode, opened⟩ := s
  unfold Scan.closeBracket
  cases spine with
  | nil => exact h.between
  | @cons nodes opened k value row' spine regular' br plain =>
    by_cases same : k = kind
    · simp only [same, if_true]
      subst same
      refine ⟨nodes, .bracket row' k value row, spine, .bracket regular' br plain regular, ?_, nofun⟩
      simp only at e
      simp [e, Row.nodes, innermost, Scan.parent, Nat.add_assoc]
    · simp only [same, if_false]
      exact h.between

/-- Plain text goes into the innermost open bracket. -/
lemma Grows.pushAt (h : s.Grows) {kind : Kind} {top : Nat} {outer : List (Kind × Nat)}
    (opened : s.opened = (kind, top) :: outer) (hp : isPlain c = true) : (s.pushAt top c).Grows := by
  obtain ⟨nodes, row, spine, regular, e, last⟩ := h
  obtain ⟨all, mode, opened⟩ := s
  simp only at opened e
  subst opened e
  cases spine with
  | @cons nodes _ _ value row' spine regular' br plain =>
    have plain' : ∀ d ∈ value ++ [c], isPlain d = true := by
      intro d mem
      rcases List.mem_append.1 mem with mem | mem
      · exact plain d mem
      · exact List.mem_singleton.1 mem ▸ hp
    refine ⟨_, row, .cons spine regular' br plain', regular, ?_, last⟩
    have place : nodes.length + row'.size =
        (nodes ++ row'.nodes (innermost outer) nodes.length).length := by simp
    rw [place, List.append_assoc, List.singleton_append, pushAt_middle]
    simp [Node.push]

/-- A run that begins comes last in the row, with its first character. -/
lemma Grows.startRun (h : s.Grows) (opened : s.opened = []) (hp : isPlain c = true)
    (space : c ≠ ' ') : ((s.create .other .run).pushLast c).Grows := by
  obtain ⟨nodes, row, spine, regular, e, -⟩ := h
  obtain ⟨all, mode, opened⟩ := s
  simp only at opened e
  subst opened e
  have text : ∀ d ∈ [c], isPlain d = true ∧ d ≠ ' ' := List.forall_mem_singleton.2 ⟨hp, space⟩
  refine ⟨nodes, .leaf row .other [c], spine, .run regular (List.cons_ne_nil _ _) text, ?_, ?_⟩
  · rw [Scan.create, pushLast_snoc]
    exact List.append_assoc _ _ _
  · intro kind mem
    cases mem
    exact ⟨row, [c], rfl⟩

/-- Every move lets the row grow. -/
lemma Grows.move (h : s.Grows) {s' : Scan} (move : Move s c s') : s'.Grows := by
  cases move with
  | pause => exact h.between
  | drop => exact h
  | endString => exact h.between
  | inString hm hb hq =>
    exact h.pushLast (hm ▸ rfl) fun regular => regular.push_string hb hq
  | opens br => exact h.openBracket br.isBracket
  | closes => exact h.closeBracket _
  | startString => exact h.create rfl fun regular => .string regular nofun
  | startKeyword => exact h.create rfl fun regular => .keyword regular nofun
  | endKeyword => exact h.between
  | inKeyword hm hp space =>
    exact h.pushLast (hm ▸ rfl) fun regular => regular.push_keyword hp space
  | inBracket _ _ hp opened => exact h.pushAt opened hp
  | gap => exact h.between
  | inRun _ hp space hm => exact h.pushLast (hm ▸ rfl) fun regular => regular.push_run hp space
  | startRun opened hp space => exact h.startRun opened hp space

/-- However much is read, it is a row. -/
lemma Grows.feed (h : s.Grows) (source : Text) : (s.feed source).Grows := by
  induction source generalizing s with
  | nil => exact h
  | cons c source ih => exact ih (h.move (s.step_move c))

/-- Brackets that are still open can as well be closed. -/
lemma Spine.row {nodes : List Node} {opened : List (Kind × Nat)} (spine : Spine nodes opened)
    {row : Row} (regular : row.Regular opened.isEmpty) :
    ∃ whole : Row, whole.Regular true ∧
      nodes ++ row.nodes (innermost opened) nodes.length = whole.nodes none 0 := by
  induction spine generalizing row with
  | nil => exact ⟨row, regular, rfl⟩
  | @cons nodes opened kind value before _ regular' br plain ih =>
    obtain ⟨whole, regular, e⟩ := ih (.bracket regular' br plain regular)
    refine ⟨whole, regular, e ▸ ?_⟩
    simp [Row.nodes, innermost, Scan.parent, Nat.add_assoc]

end

end Scan

/-- Every source is read as a regular row. -/
lemma ofSource_row (source : Text) : ∃ row : Row, row.Regular true ∧
    Nodes.ofSource source = (row.nodes none 0).map Node.settle := by
  obtain ⟨nodes, row, spine, regular, e, -⟩ := Scan.Grows.empty.feed source
  obtain ⟨whole, regular', e'⟩ := spine.row regular
  exact ⟨whole, regular', by rw [Nodes.ofSource, e, e']⟩

end Sigil
