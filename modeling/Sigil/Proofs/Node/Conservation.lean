import Mathlib.Tactic.Common
import Sigil.Proofs.Node.Row

/-!
# What reading keeps of a source

Reading a source loses nothing of it and does not mix up its parts. Both rest on one fact: whenever
a character goes into a node, that node is there (`Scan.Grows.nodes_ne_nil`, `Scan.Nested.opened`).

* Behind a source that ends outside strings and brackets, a text is read as it would be on its own.
  `Scan.behind` is a scan moved behind other nodes. Moving commutes with every step of the scanner
  (`Scan.Grows.step_behind`), hence with reading a text (`Scan.Grows.feed_behind`).
* A character that has no meaning of its own goes into exactly one node, wherever it stands
  (`Scan.Grows.count_step_self`). So the nodes hold it as often as the source (`count_ofSource`).
-/

namespace Sigil

/-- A node moved behind `n` others: so is the bracket around it. -/
def Node.shift (n : Nat) (node : Node) : Node :=
  { node with parent := node.parent.map (n + ·) }

/-- The kind of a run does not depend on where it stands. -/
lemma Node.settle_shift (n : Nat) (node : Node) : (node.shift n).settle = node.settle.shift n := by
  unfold Node.settle Node.shift
  split <;> rfl

namespace Scan

variable {s : Scan} {c : Char}

/-- While a keyword, string or run is being read, there is a last node. -/
lemma Grows.nodes_ne_nil (h : s.Grows) (hm : s.mode ≠ .between) : s.nodes ≠ [] := by
  obtain ⟨nodes, row, -, -, e, last⟩ := h
  obtain ⟨kind, hk⟩ : ∃ kind, s.mode.kind? = some kind := by
    cases hs : s.mode with
    | between => exact absurd hs hm
    | keyword | string | run => exact ⟨_, rfl⟩
  obtain ⟨before, value, rfl⟩ := last kind hk
  simp [e, Row.nodes]

/-! ### Reading behind other nodes -/

/-- The scan behind other nodes. -/
def behind (before : List Node) (s : Scan) : Scan where
  nodes := before ++ s.nodes.map (Node.shift before.length)
  mode := s.mode
  opened := s.opened.map fun (kind, i) => (kind, before.length + i)

variable (before : List Node)

/-- What is read next does not depend on what was read long before. -/
@[simp] lemma behind_mode (s : Scan) : (s.behind before).mode = s.mode :=
  rfl

/-- The innermost open bracket has moved with the other nodes. -/
lemma parent_behind (s : Scan) : (s.behind before).parent = s.parent.map (before.length + ·) := by
  cases h : s.opened <;> simp [parent, behind, h]

/-- A node can be started before or after the others are moved. -/
lemma create_behind (s : Scan) (kind : Kind) (mode : Mode) :
    (s.behind before).create kind mode = (s.create kind mode).behind before := by
  have node : Node.empty kind (s.behind before).parent =
      (Node.empty kind s.parent).shift before.length := by
    rw [parent_behind]
    rfl
  rw [create, node]
  simp [create, behind]

/-- Nodes in front do not matter for a change of one behind them. -/
lemma pushAt_behind (s : Scan) (i : Nat) (c : Char) :
    (s.behind before).pushAt (before.length + i) c = (s.pushAt i c).behind before := by
  have skip : ∀ nodes : List Node, (before ++ nodes).modify (before.length + i) (Node.push c) =
      before ++ nodes.modify i (Node.push c) := by
    intro nodes
    rw [List.modify_eq_take_drop, List.modify_eq_take_drop, List.take_length_add_append,
      List.drop_length_add_append, List.append_assoc]
  have shifted : (s.nodes.modify i (Node.push c)).map (Node.shift before.length) =
      (s.nodes.map (Node.shift before.length)).modify i (Node.push c) := by
    apply List.ext_getElem?
    intro j
    simp only [List.getElem?_map, List.getElem?_modify]
    split <;> cases s.nodes[j]? <;> rfl
  simp [pushAt, behind, skip, shifted]

/-- The last node is behind the others if there is one. -/
lemma pushLast_behind (ne : s.nodes ≠ []) (c : Char) :
    (s.behind before).pushLast c = (s.pushLast c).behind before := by
  have pos := List.length_pos_iff.2 ne
  have last : (s.behind before).nodes.length - 1 = before.length + (s.nodes.length - 1) := by
    simp only [behind, List.length_append, List.length_map]
    omega
  rw [pushLast, last, pushAt_behind]
  rfl

/-- A bracket can be opened before or after the others are moved. -/
lemma openBracket_behind (s : Scan) (kind : Kind) :
    (s.behind before).openBracket kind = (s.openBracket kind).behind before := by
  rw [openBracket, create_behind]
  simp [openBracket, behind, create]

/-- A bracket can be closed before or after the others are moved. -/
lemma closeBracket_behind (s : Scan) (kind : Kind) :
    (s.behind before).closeBracket kind = (s.closeBracket kind).behind before := by
  cases h : s.opened with
  | nil => simp [closeBracket, behind, h]
  | cons top outer =>
    by_cases e : top.1 = kind <;> simp [closeBracket, behind, h, e]

/-- A plain character can be read before or after the others are moved. -/
lemma Grows.plain_behind (h : s.Grows) (c : Char) :
    (s.behind before).plain c = (s.plain c).behind before := by
  cases ho : s.opened with
  | nil =>
    have ho' : (s.behind before).opened = [] := by simp [behind, ho]
    simp only [Scan.plain, ho, ho', behind_mode, apply_ite (behind before)]
    refine ite_congr rfl (fun _ => rfl) fun _ => ite_congr rfl (fun run => ?_) fun _ => ?_
    · exact pushLast_behind before (h.nodes_ne_nil (by simp [run])) c
    · rw [create_behind]
      exact pushLast_behind before (by simp [Scan.create]) c
  | cons top outer =>
    have ho' : (s.behind before).opened = (top.1, before.length + top.2) ::
      outer.map fun (kind, i) => (kind, before.length + i) := by simp [behind, ho]
    simp only [Scan.plain, ho, ho']
    exact pushAt_behind before s top.2 c

/-- A step behind other nodes is the same step. -/
lemma Grows.step_behind (h : s.Grows) (c : Char) :
    (s.behind before).step c = (s.step c).behind before := by
  simp only [Scan.step, behind_mode, apply_ite (behind before), openBracket_behind,
    closeBracket_behind, create_behind, h.plain_behind]
  -- what is left is the node that is being read, if there is one
  by_cases hm : s.mode = .between
  · simp only [hm, reduceCtorEq, if_false]
    rfl
  · rw [pushLast_behind before (h.nodes_ne_nil hm)]
    rfl

/-- A text behind other nodes is read as on its own. -/
lemma Grows.feed_behind (h : s.Grows) (source : Text) :
    (s.behind before).feed source = (s.feed source).behind before := by
  induction source generalizing s with
  | nil => rfl
  | cons c source ih =>
    rw [feed_cons, feed_cons, h.step_behind, ih (h.move (s.step_move c))]

end Scan

/-- Sources are read part by part. Behind a source that ends outside all strings and brackets, and a
line end, a text is read as on its own, only that its brackets have moved behind the nodes of the
source; and the nodes of the source do not depend on the text at all. -/
theorem ofSource_append (source : Text) (mode : (Scan.feed {} source).mode ≠ .string)
    (opened : (Scan.feed {} source).opened = []) (t : Text) :
    Nodes.ofSource (source ++ '\n' :: t) = Nodes.ofSource source ++
      (Nodes.ofSource t).map (Node.shift (Nodes.ofSource source).length) ∧
    (Nodes.ofSource (source ++ '\n' :: t)).take (Nodes.ofSource source).length =
      Nodes.ofSource source := by
  have joined : Nodes.ofSource (source ++ '\n' :: t) = Nodes.ofSource source ++
      (Nodes.ofSource t).map (Node.shift (Nodes.ofSource source).length) := by
    have start : (Scan.feed {} source).step '\n' =
        Scan.behind (Scan.feed {} source).nodes {} := by
      simp [Scan.step, Scan.isBreak, mode, opened, Scan.behind]
    rw [Nodes.ofSource, Scan.feed_append, Scan.feed_cons, start, Scan.Grows.empty.feed_behind]
    simp [Scan.behind, Nodes.ofSource, Function.comp_def, Node.settle_shift]
  exact ⟨joined, by rw [joined, List.take_left]⟩

/-- A line that ends in the middle of a keyword is closed by the line end; the brackets of the next
line, which stay open, count from behind its three nodes. -/
theorem ofSource_append_keyword :
    let source := "a \x7bb\x7d @c".toList
    let t := "d \x7b(\"s".toList
    (Scan.feed {} source).mode = .keyword ∧ (Scan.feed {} source).opened = [] ∧
      Nodes.ofSource (source ++ '\n' :: t) =
        Nodes.ofSource source ++ (Nodes.ofSource t).map (Node.shift 3) ∧
      (Nodes.ofSource (source ++ '\n' :: t)).map (·.parent) =
        [none, none, none, none, none, some 4, some 5] := by
  intro source t
  have mode : (Scan.feed {} source).mode = .keyword := by decide
  have opened : (Scan.feed {} source).opened = [] := by decide
  have three : (Nodes.ofSource source).length = 3 := by decide +kernel
  obtain ⟨joined, -⟩ := ofSource_append source (by simp [mode]) opened t
  rw [three] at joined
  exact ⟨mode, opened, joined, by decide +kernel⟩

/-! ### Counting characters -/

/-- The texts of all nodes that were read so far, one behind the other. -/
def Scan.texts (s : Scan) : Text :=
  s.nodes.flatMap Node.value

namespace Scan

variable {s s' : Scan} {c d : Char}

/-- A node that is started brings no characters. -/
lemma count_create (c : Char) (kind : Kind) (mode : Mode) (s : Scan) :
    (s.create kind mode).texts.count c = s.texts.count c := by
  simp [texts, create, Node.empty]

/-- A character that goes into a node is one more character. -/
lemma count_pushAt (c d : Char) {i : Nat} (lt : i < s.nodes.length) :
    (s.pushAt i d).texts.count c = s.texts.count c + [d].count c := by
  obtain ⟨earlier, node, later, e, -, pushed⟩ := List.exists_of_modify (Node.push d) lt
  rw [texts, texts, pushAt, pushed, e]
  simp only [Node.push, List.flatMap_append, List.flatMap_cons, List.count_append]
  omega

/-- A character that goes into the last node is one more character. -/
lemma count_pushLast (c d : Char) (ne : s.nodes ≠ []) :
    (s.pushLast d).texts.count c = s.texts.count c + [d].count c := by
  have pos := List.length_pos_iff.2 ne
  exact count_pushAt c d (by omega)

/-- Another character changes nothing in the number of this one. -/
lemma count_pushAt_of_ne (ne : d ≠ c) (i : Nat) (s : Scan) :
    (s.pushAt i d).texts.count c = s.texts.count c := by
  rcases Nat.lt_or_ge i s.nodes.length with lt | ge
  · simp [count_pushAt c d lt, ne]
  · rw [pushAt, List.modify_eq_self ge]

/-- Another character changes nothing, whatever it does. -/
lemma Move.count_of_ne (move : Move s d s') (ne : d ≠ c) :
    s'.texts.count c = s.texts.count c := by
  cases move with
  | pause | drop | endString | endKeyword | gap => rfl
  | inString | inKeyword | inBracket | inRun => exact count_pushAt_of_ne ne _ s
  | opens => exact count_create c _ .between s
  | closes =>
    unfold closeBracket
    split <;> rfl
  | startString | startKeyword => exact count_create c _ _ s
  | startRun => exact (count_pushAt_of_ne ne _ _).trans (count_create c _ _ s)

/-- Plain text other than a space goes into one node. -/
lemma Grows.count_plain (h : s.Grows) (nested : s.Nested) (space : c ≠ ' ') :
    (s.plain c).texts.count c = s.texts.count c + 1 := by
  unfold Scan.plain
  split
  · rename_i kind top outer opened
    obtain ⟨-, b, hb, -⟩ := nested.opened (opened ▸ List.mem_cons_self)
    have lt : top < s.nodes.length := by
      simpa [shapes] using (List.getElem?_eq_some_iff.1 hb).1
    simpa using count_pushAt c c lt
  · rw [if_neg space]
    split
    · rename_i run
      simpa using count_pushLast c c (h.nodes_ne_nil (by simp [run]))
    · have ne : (s.create .other .run).nodes ≠ [] := by simp [Scan.create]
      simpa [count_create] using count_pushLast c c ne

/-- A character without a meaning of its own goes into one node. -/
lemma Grows.count_step_self (h : s.Grows) (nested : s.Nested) (hp : isPlain c = true)
    (space : c ≠ ' ') : (s.step c).texts.count c = s.texts.count c + 1 := by
  have last : s.mode ≠ .between → (s.pushLast c).texts.count c = s.texts.count c + 1 := by
    intro hm
    simpa using count_pushLast c c (h.nodes_ne_nil hm)
  rw [step_of_isPlain s hp, if_neg space]
  split
  · rename_i string
    exact last (by simp [string])
  · split
    · rename_i keyword
      exact last (by simp [keyword])
    · exact h.count_plain nested space

/-- What is read adds its characters to those of the nodes. -/
lemma Grows.count_feed (h : s.Grows) (nested : s.Nested) (hp : isPlain c = true)
    (space : c ≠ ' ') (source : Text) :
    (s.feed source).texts.count c = s.texts.count c + source.count c := by
  induction source generalizing s with
  | nil => rfl
  | cons d source ih =>
    have move := s.step_move d
    rw [feed_cons, ih (h.move move) (nested_kept.step nested d), List.count_cons]
    by_cases e : d = c
    · subst e
      rw [h.count_step_self nested hp space, if_pos (beq_self_eq_true d)]
      omega
    · simp [move.count_of_ne e, e]

end Scan

/-- Settling the kind of a node does not change its text. -/
lemma Node.settle_value (node : Node) : node.settle.value = node.value := by
  unfold Node.settle
  split <;> rfl

/-- No character is lost or doubled by reading. A character that is no space, line end or tab, no
bracket, no quotation mark and no `@` occurs in the texts of the nodes as often as in the source. -/
theorem count_ofSource (source : Text) (c : Char)
    (ordinary : c ∉ [' ', '\n', '\t', '\r', '\x0b', '{', '}', '(', ')', '"', '@']) :
    ((Nodes.ofSource source).flatMap Node.value).count c = source.count c := by
  have plain : Scan.isPlain c = true ∧ c ≠ ' ' := by
    simpa [Scan.isPlain, Scan.isBreak, Scan.isMark, and_assoc, and_comm, and_left_comm]
      using ordinary
  have counted := Scan.Grows.empty.count_feed .empty plain.1 plain.2 source
  simpa [Nodes.ofSource, Scan.texts, List.flatMap_map, Node.settle_value] using counted

/-- A run, a keyword, the text of a bracket, and a string that is not closed. -/
theorem count_ofSource_everywhere :
    let source := "x\x7bx)@x x\"\x7dx".toList
    'x' ∉ [' ', '\n', '\t', '\r', '\x0b', '{', '}', '(', ')', '"', '@'] ∧
      ((Nodes.ofSource source).flatMap Node.value).count 'x' = 5 := by
  intro source
  have ordinary : 'x' ∉ [' ', '\n', '\t', '\r', '\x0b', '{', '}', '(', ')', '"', '@'] := by decide
  exact ⟨ordinary, (count_ofSource source 'x' ordinary).trans (by decide)⟩

end Sigil
