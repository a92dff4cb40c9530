import Mathlib.Tactic.Common
import Sigil.Node.Scan

/-!
# What the scanner makes of well-written text

A source is written piece by piece: keywords, strings, brackets with a text inside, spaces and line
ends. Each lemma here says what the scanner adds to the nodes for one such piece, whatever was read
before: `feed_word`, `feed_string`, `feed_bracket` and `feed_run`. Where a piece stands inside an
open bracket, the new nodes are its children, and plain text goes into the bracket itself
(`feed_inside`).
-/

namespace Sigil.Scan

/-- The characters that have a meaning of their own outside strings. -/
def isMark (c : Char) : Bool :=
  c == '{' || c == '}' || c == '(' || c == ')' || c == '"' || c == '@'

/-- The characters that stand for themselves outside strings. -/
def isPlain (c : Char) : Bool :=
  !isBreak c && !isMark c

/-- A keyword as it is written, with a space behind it. -/
def writeWord (word : Text) : Text :=
  '@' :: word ++ [' ']

/-- A string as it is written. -/
def writeString (t : Text) : Text :=
  '"' :: t ++ ['"']

/-- Round brackets around a text. -/
def writeParen (t : Text) : Text :=
  '(' :: t ++ [')']

/-- Curly brackets around a text. -/
def writeBlock (t : Text) : Text :=
  '{' :: t ++ ['}']

section
variable {nodes more : List Node} {node : Node} {mode : Mode} {opened : List (Kind × Nat)}
  {c : Char} {t : Text}

/-- What stands for itself outside strings does so inside. -/
lemma isPlain_inv (h : isPlain c = true) : isBreak c = false ∧ c ≠ '"' := by
  simp only [isPlain, isMark, Bool.and_eq_true, Bool.not_eq_true', Bool.or_eq_false_iff,
    beq_eq_false_iff_ne] at h
  exact ⟨h.1, h.2.1.2⟩

/-- A text is read by reading its first part and then the rest. -/
lemma feed_append (s : Scan) (t u : Text) : s.feed (t ++ u) = (s.feed t).feed u :=
  List.foldl_append

/-- Reading a text goes on after its first character. -/
lemma feed_cons (s : Scan) (c : Char) (t : Text) : s.feed (c :: t) = (s.step c).feed t :=
  rfl

/-! ### Single characters -/

/-- A character is added to the node at its index, wherever it stands. -/
lemma pushAt_middle : pushAt nodes.length c ⟨nodes ++ node :: more, mode, opened⟩ =
    ⟨nodes ++ node.push c :: more, mode, opened⟩ := by
  have pushed : (nodes ++ node :: more).modify nodes.length (Node.push c) =
      nodes ++ node.push c :: more := by
    induction nodes with
    | nil => rfl
    | cons first nodes ih => exact congrArg (first :: ·) ih
  simp only [pushAt, pushed]

/-- A character is added to the last node. -/
lemma pushLast_snoc : pushLast c ⟨nodes ++ [node], mode, opened⟩ =
    ⟨nodes ++ [node.push c], mode, opened⟩ := by
  rw [pushLast]
  simpa using pushAt_middle

/-- A string takes every character but breaks and its quotation mark. -/
lemma step_string (hb : isBreak c = false) (hq : c ≠ '"') :
    step ⟨nodes ++ [node], .string, opened⟩ c = ⟨nodes ++ [node.push c], .string, opened⟩ := by
  simp only [step, hb, hq, Bool.false_eq_true, if_false, if_true]
  exact pushLast_snoc

/-- A character that stands for itself goes into what is being read, or is plain text. -/
lemma step_of_isPlain (s : Scan) (h : isPlain c = true) : s.step c =
    if s.mode = .string then s.pushLast c
    else if s.mode = .keyword then if c = ' ' then { s with mode := .between } else s.pushLast c
    else s.plain c := by
  simp only [isPlain, isMark, Bool.and_eq_true, Bool.not_eq_true', Bool.or_eq_false_iff,
    beq_eq_false_iff_ne] at h
  obtain ⟨hb, ⟨⟨⟨⟨h₁, h₂⟩, h₃⟩, h₄⟩, h₅⟩, h₆⟩ := h
  simp only [step, hb, h₁, h₂, h₃, h₄, h₅, h₆, Bool.false_eq_true, if_false]

/-- A keyword takes every plain character but the space. -/
lemma step_keyword (h : isPlain c = true) (hs : c ≠ ' ') :
    step ⟨nodes ++ [node], .keyword, opened⟩ c = ⟨nodes ++ [node.push c], .keyword, opened⟩ := by
  simp only [step_of_isPlain _ h, hs, if_false, if_true, reduceCtorEq]
  exact pushLast_snoc

/-- A plain character between the nodes of a bracket. -/
lemma step_inside {kind : Kind} (h : isPlain c = true) :
    step ⟨nodes ++ node :: more, .between, (kind, nodes.length) :: opened⟩ c =
      ⟨nodes ++ node.push c :: more, .between, (kind, nodes.length) :: opened⟩ := by
  simp only [step_of_isPlain _ h, if_false, reduceCtorEq, plain]
  exact pushAt_middle

/-- A plain character outside all brackets. -/
lemma step_outside (h : isPlain c = true) (hs : c ≠ ' ') (hm : mode = .between ∨ mode = .run) :
    step ⟨nodes, mode, []⟩ c = if mode = .run then pushLast c ⟨nodes, .run, []⟩
      else ⟨nodes ++ [{ kind := .other, parent := none, value := [c] }], .run, []⟩ := by
  rcases hm with rfl | rfl
  · simp only [step_of_isPlain _ h, hs, if_false, reduceCtorEq, plain, create]
    exact pushLast_snoc
  · simp only [step_of_isPlain _ h, hs, if_false, if_true, reduceCtorEq, plain]

/-! ### Runs of characters -/

/-- A character put in front of more text is text put behind the value. -/
lemma push_value (node : Node) (c : Char) (t : Text) :
    { node.push c with value := (node.push c).value ++ t } =
      { node with value := node.value ++ c :: t } := by
  simp [Node.push]

/-- A string takes a whole text without breaks and quotation marks. -/
lemma feed_string_rest (h : ∀ c ∈ t, isBreak c = false ∧ c ≠ '"') :
    feed ⟨nodes ++ [node], .string, opened⟩ t =
      ⟨nodes ++ [{ node with value := node.value ++ t }], .string, opened⟩ := by
  induction t generalizing node with
  | nil => simp [feed]
  | cons c t ih =>
    obtain ⟨hb, hq⟩ := h c List.mem_cons_self
    rw [feed_cons, step_string hb hq, ih fun c mem => h c (List.mem_cons_of_mem _ mem), push_value]

/-- A keyword takes a whole text of plain characters without spaces. -/
lemma feed_keyword_rest (h : ∀ c ∈ t, isPlain c = true ∧ c ≠ ' ') :
    feed ⟨nodes ++ [node], .keyword, opened⟩ t =
      ⟨nodes ++ [{ node with value := node.value ++ t }], .keyword, opened⟩ := by
  induction t generalizing node with
  | nil => simp [feed]
  | cons c t ih =>
    obtain ⟨hp, hs⟩ := h c List.mem_cons_self
    rw [feed_cons, step_keyword hp hs, ih fun c mem => h c (List.mem_cons_of_mem _ mem), push_value]

/-- Plain text goes into the innermost open bracket. -/
lemma feed_inside {kind : Kind} (h : ∀ c ∈ t, isPlain c = true) :
    feed ⟨nodes ++ node :: more, .between, (kind, nodes.length) :: opened⟩ t =
      ⟨nodes ++ { node with value := node.value ++ t } :: more, .between,
        (kind, nodes.length) :: opened⟩ := by
  induction t generalizing node with
  | nil => simp [feed]
  | cons c t ih =>
    rw [feed_cons, step_inside (h c List.mem_cons_self),
      ih fun c mem => h c (List.mem_cons_of_mem _ mem), push_value]

/-- A run takes a whole text of plain characters without spaces. -/
lemma feed_run_rest (h : ∀ c ∈ t, isPlain c = true ∧ c ≠ ' ') :
    feed ⟨nodes ++ [node], .run, []⟩ t =
      ⟨nodes ++ [{ node with value := node.value ++ t }], .run, []⟩ := by
  induction t generalizing node with
  | nil => simp [feed]
  | cons c t ih =>
    obtain ⟨hp, hs⟩ := h c List.mem_cons_self
    rw [feed_cons, step_outside hp hs (.inr rfl), if_pos rfl, pushLast_snoc,
      ih fun c mem => h c (List.mem_cons_of_mem _ mem), push_value]

/-! ### Pieces of a source -/

/-- Between nodes and outside all brackets, a space is dropped. -/
lemma feed_space : feed ⟨nodes, .between, []⟩ [' '] = ⟨nodes, .between, []⟩ :=
  rfl

/-- An opening bracket starts a block that stays open. -/
lemma feed_openBlock : feed ⟨nodes, .between, opened⟩ ['{'] =
    ⟨nodes ++ [.empty .block (parent { opened })], .between, (.block, nodes.length) :: opened⟩ :=
  rfl

/-- A keyword that is written is read as one node. -/
lemma feed_word (h : ∀ c ∈ t, isPlain c = true ∧ c ≠ ' ') :
    feed ⟨nodes, .between, opened⟩ (writeWord t) =
      ⟨nodes ++ [{ kind := .keyword, parent := parent { opened }, value := t }], .between,
        opened⟩ := by
  have start : step ⟨nodes, .between, opened⟩ '@' =
      ⟨nodes ++ [.empty .keyword (parent { opened })], .keyword, opened⟩ := rfl
  rw [writeWord, List.cons_append, feed_cons, start, feed_append, feed_keyword_rest h]
  rfl

/-- A string that is written is read as one node. -/
lemma feed_string (h : ∀ c ∈ t, isBreak c = false ∧ c ≠ '"') :
    feed ⟨nodes, .between, opened⟩ (writeString t) =
      ⟨nodes ++ [{ kind := .string, parent := parent { opened }, value := t }], .between,
        opened⟩ := by
  have start : step ⟨nodes, .between, opened⟩ '"' =
      ⟨nodes ++ [.empty .string (parent { opened })], .string, opened⟩ := rfl
  rw [writeString, List.cons_append, feed_cons, start, feed_append, feed_string_rest h]
  rfl

/-- A run outside all brackets. -/
lemma feed_run (h : ∀ c ∈ t, isPlain c = true ∧ c ≠ ' ') (ne : t ≠ []) :
    feed ⟨nodes, .between, []⟩ t =
      ⟨nodes ++ [{ kind := .other, parent := none, value := t }], .run, []⟩ := by
  cases t with
  | nil => exact absurd rfl ne
  | cons c t =>
    obtain ⟨hp, hs⟩ := h c List.mem_cons_self
    rw [feed_cons, step_outside hp hs (.inl rfl), if_neg nofun,
      feed_run_rest fun c mem => h c (List.mem_cons_of_mem _ mem)]
    rfl

/-- A pair of brackets with a text inside. -/
lemma feed_bracket {kind : Kind} {first last : Char}
    (opens : step ⟨nodes, .between, opened⟩ first = openBracket kind ⟨nodes, .between, opened⟩)
    (closes : ∀ nodes opened, step ⟨nodes, .between, opened⟩ last =
      closeBracket kind ⟨nodes, .between, opened⟩) (h : ∀ c ∈ t, isPlain c = true) :
    feed ⟨nodes, .between, opened⟩ (first :: t ++ [last]) =
      ⟨nodes ++ [{ kind, parent := parent { opened }, value := t }], .between, opened⟩ := by
  have start : openBracket kind ⟨nodes, .between, opened⟩ =
      ⟨nodes ++ [.empty kind (parent { opened })], .between, (kind, nodes.length) :: opened⟩ := rfl
  rw [List.cons_append, feed_cons, opens, start, feed_append, feed_inside h, feed_cons, closes]
  simp [closeBracket, feed, Node.empty]

/-- Round brackets around plain characters are read as one node. -/
lemma feed_paren (h : ∀ c ∈ t, isPlain c = true) :
    feed ⟨nodes, .between, opened⟩ (writeParen t) =
      ⟨nodes ++ [{ kind := .paren, parent := parent { opened }, value := t }], .between, opened⟩ :=
  feed_bracket rfl (fun _ _ => rfl) h

/-- Curly brackets around plain characters are read as one node. -/
lemma feed_block (h : ∀ c ∈ t, isPlain c = true) :
    feed ⟨nodes, .between, opened⟩ (writeBlock t) =
      ⟨nodes ++ [{ kind := .block, parent := parent { opened }, value := t }], .between, opened⟩ :=
  feed_bracket rfl (fun _ _ => rfl) h

end

end Sigil.Scan
