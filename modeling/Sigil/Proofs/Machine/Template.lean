import Mathlib.Data.Bool.AllAny
import Mathlib.Tactic.Common
import Sigil.Proofs.Machine.Trace
import Sigil.Proofs.Machine.Isolation
import Sigil.Proofs.Node.Scanning
import Sigil.Proofs.Node.Filling
import Sigil.Proofs.Text.Trim

/-!
# Functions that return a template

A `Template` is a function whose block returns one string, in which the parameters have
placeholders. Here its declaration and its calls are written as a script (`Template.script`).
-/

namespace Sigil

/-- A text of characters that have no meaning of their own. -/
def Text.Simple (t : Text) : Prop :=
  ∀ c ∈ t, Scan.isPlain c = true ∧ c ≠ ',' ∧ c ≠ '[' ∧ c ≠ ']' ∧ c ≠ '#'

instance (t : Text) : Decidable t.Simple :=
  List.decidableBAll _ t

/-- A text that can stand for something: it is simple, trimmed and not empty. -/
structure Text.IsName (t : Text) : Prop where
  simple : t.Simple
  trimmed : trim t = t
  ne : t ≠ []

/-- A function whose block returns a string with placeholders for the parameters. -/
structure Template where
  name : Text
  params : List Text
  body : Text
  name_ok : name.IsName
  params_ok : ∀ p ∈ params, p.IsName
  nodup : params.Nodup
  body_ok : ∀ c ∈ body, Scan.isBreak c = false ∧ c ≠ '"'
  apart : (Piece.ofText body).IsChain Piece.Apart
  holes : ∀ inside, .hole inside ∈ Piece.ofText body →
    ∃ p ∈ params, inside = name ++ ".args.".toList ++ p

namespace Template

/-- A call with as many arguments as the function has parameters, none of them blank, and with a
name for the result. -/
structure Call (f : Template) where
  args : List Text
  out : Text
  length_eq : args.length = f.params.length
  args_ok : ∀ a ∈ args, a.Simple ∧ Text.trim a ≠ []
  out_ok : out.Simple

variable (f : Template)

/-- The declaration as it is written. -/
def declaration : Text :=
  Scan.writeWord "func".toList ++ Scan.writeBlock f.name ++ [' '] ++
    Scan.writeParen ([','].intercalate f.params) ++ [' '] ++
    Scan.writeBlock ([' '] ++ Scan.writeWord "return".toList ++ Scan.writeString f.body ++ [' '])

variable {f} in
/-- A call as it is written, on a line of its own. -/
def Call.source (call : f.Call) : Text :=
  ['\n'] ++ Scan.writeWord "call".toList ++ Scan.writeString ('*' :: f.name) ++ [' '] ++
    Scan.writeParen ([','].intercalate call.args) ++ [' '] ++ Scan.writeBlock call.out

/-- The declaration, and calls after it. -/
def script (calls : List f.Call) : Text :=
  f.declaration ++ calls.flatMap Call.source

/-! ### The nodes of the script -/

/-- The index of the block of the function. -/
def bodyIndex : Nat := 3

/-- The nodes of the declaration up to the string in the block. -/
def front : List Node :=
  [{ kind := .keyword, parent := none, value := "func".toList },
   { kind := .block, parent := none, value := f.name },
   { kind := .paren, parent := none, value := [','].intercalate f.params },
   { kind := .block, parent := none, value := "  ".toList },
   { kind := .keyword, parent := some bodyIndex, value := "return".toList }]

variable {f} in
/-- The nodes of a call. -/
def Call.nodes (call : f.Call) : List Node :=
  [{ kind := .keyword, parent := none, value := "call".toList },
   { kind := .string, parent := none, value := '*' :: f.name },
   { kind := .paren, parent := none, value := [','].intercalate call.args },
   { kind := .block, parent := none, value := call.out }]

/-- The nodes of the script, with `node` as the string in the block. -/
def layout (node : Node) (calls : List f.Call) : List Node :=
  f.front ++ node :: calls.flatMap Call.nodes

/-- The string in the block before anything was filled in. -/
def blank : Node :=
  { kind := .string, parent := some bodyIndex, value := f.body }

/-- A character of a list is one of its parts, or a comma between them. -/
lemma mem_intercalate {parts : List Text} {c : Char} (h : c ∈ [','].intercalate parts) :
    c = ',' ∨ ∃ part ∈ parts, c ∈ part := by
  induction parts with
  | nil => cases h
  | cons part parts ih =>
    cases parts with
    | nil =>
      rw [List.intercalate_singleton] at h
      exact .inr ⟨part, List.mem_cons_self, h⟩
    | cons next parts =>
      rw [List.intercalate_cons_cons] at h
      simp only [List.mem_append, List.mem_singleton] at h
      obtain (h | h) | h := h
      · exact .inr ⟨part, List.mem_cons_self, h⟩
      · exact .inl h
      · obtain e | ⟨part', mem, hc⟩ := ih h
        · exact .inl e
        · exact .inr ⟨part', List.mem_cons_of_mem _ mem, hc⟩

/-- Simple parts with commas between them are of plain characters. -/
lemma plain_intercalate {parts : List Text} (h : ∀ part ∈ parts, part.Simple) :
    ∀ c ∈ [','].intercalate parts, Scan.isPlain c = true := by
  intro c mem
  obtain rfl | ⟨part, mem, hc⟩ := mem_intercalate mem
  · rfl
  · exact (h part mem c hc).1

/-- The letters of the keywords. -/
lemma plain_word {word : Text}
    (h : (word.all fun c => decide (Scan.isPlain c = true ∧ c ≠ ' ')) = true) :
    ∀ c ∈ word, Scan.isPlain c = true ∧ c ≠ ' ' :=
  List.all_iff_forall_prop.1 h

/-- The declaration is read as its nodes. -/
lemma feed_declaration : Scan.feed {} f.declaration = ⟨f.front ++ [f.blank], .between, []⟩ := by
  have name := fun c mem => (f.name_ok.simple c mem).1
  have params := plain_intercalate fun p mem => (f.params_ok p mem).simple
  have space : ∀ c ∈ [' '], Scan.isPlain c = true := fun c mem => List.mem_singleton.1 mem ▸ rfl
  unfold declaration
  rw [Scan.feed_append, Scan.feed_append, Scan.feed_append, Scan.feed_append, Scan.feed_append,
    Scan.feed_word (plain_word (by decide)), Scan.feed_block name, Scan.feed_space,
    Scan.feed_paren params, Scan.feed_space]
  -- the block is read from one bracket to the other, with its children between them
  have block : ∀ t, Scan.writeBlock t = ['{'] ++ t ++ ['}'] := fun _ => rfl
  rw [block, Scan.feed_append, Scan.feed_append, Scan.feed_append, Scan.feed_append,
    Scan.feed_append, Scan.feed_openBlock, Scan.feed_inside space,
    Scan.feed_word (plain_word (by decide)), Scan.feed_string f.body_ok]
  rfl

variable {f} in
/-- A call is read as its nodes. -/
lemma Call.feed_source (call : f.Call) (nodes : List Node) :
    Scan.feed ⟨nodes, .between, []⟩ call.source = ⟨nodes ++ call.nodes, .between, []⟩ := by
  have name : ∀ c ∈ '*' :: f.name, Scan.isBreak c = false ∧ c ≠ '"' := by
    intro c mem
    rcases List.mem_cons.1 mem with rfl | mem
    · decide
    · exact Scan.isPlain_inv (f.name_ok.simple c mem).1
  have args := plain_intercalate fun a mem => (call.args_ok a mem).1
  have out := fun c mem => (call.out_ok c mem).1
  have line : Scan.feed ⟨nodes, .between, []⟩ ['\n'] = ⟨nodes, .between, []⟩ := rfl
  unfold source
  rw [Scan.feed_append, Scan.feed_append, Scan.feed_append, Scan.feed_append, Scan.feed_append,
    Scan.feed_append, line, Scan.feed_word (plain_word (by decide)), Scan.feed_string name,
    Scan.feed_space, Scan.feed_paren args, Scan.feed_space, Scan.feed_block out]
  simp [Call.nodes, Scan.parent]

/-- Calls in a row are read as the nodes of each. -/
lemma feed_calls (calls : List f.Call) (nodes : List Node) :
    Scan.feed ⟨nodes, .between, []⟩ (calls.flatMap Call.source) =
      ⟨nodes ++ calls.flatMap Call.nodes, .between, []⟩ := by
  induction calls generalizing nodes with
  | nil => simp [Scan.feed]
  | cons call calls ih =>
    rw [List.flatMap_cons, Scan.feed_append, call.feed_source, ih, List.flatMap_cons,
      List.append_assoc]

/-- A node that stays as it is: it shows no variable and holds no placeholder. -/
structure Still (node : Node) : Prop where
  kind : node.kind ≠ .other
  bound : node.bound = none
  opening : '[' ∉ node.value

/-- Simple parts with commas between them open no placeholder. -/
lemma opening_intercalate {parts : List Text} (h : ∀ part ∈ parts, part.Simple) :
    '[' ∉ [','].intercalate parts := by
  intro mem
  obtain e | ⟨part, mem, hc⟩ := mem_intercalate mem
  · exact absurd e (by decide)
  · exact (h part mem _ hc).2.2.1 rfl

/-- The name of the function opens no placeholder. -/
lemma opening_name : '[' ∉ f.name :=
  fun mem => (f.name_ok.simple _ mem).2.2.1 rfl

/-- The nodes in front of the string are still. -/
lemma still_front {node : Node} (mem : node ∈ f.front) : Still node := by
  have name := f.opening_name
  have params := opening_intercalate fun p mem => (f.params_ok p mem).simple
  simp only [front, List.mem_cons, List.not_mem_nil, or_false] at mem
  obtain rfl | rfl | rfl | rfl | rfl := mem
  · exact ⟨nofun, rfl, by decide⟩
  · exact ⟨nofun, rfl, name⟩
  · exact ⟨nofun, rfl, params⟩
  · exact ⟨nofun, rfl, by decide⟩
  · exact ⟨nofun, rfl, by decide⟩

variable {f} in
/-- The nodes of a call are still. -/
lemma Call.still_nodes (call : f.Call) {node : Node} (mem : node ∈ call.nodes) : Still node := by
  have name : '[' ∉ '*' :: f.name := by simpa using f.opening_name
  have args := opening_intercalate fun a mem => (call.args_ok a mem).1
  have out : '[' ∉ call.out := fun mem => (call.out_ok _ mem).2.2.1 rfl
  simp only [Call.nodes, List.mem_cons, List.not_mem_nil, or_false] at mem
  obtain rfl | rfl | rfl | rfl := mem
  · exact ⟨nofun, rfl, by decide⟩
  · exact ⟨nofun, rfl, name⟩
  · exact ⟨nofun, rfl, args⟩
  · exact ⟨nofun, rfl, out⟩

/-- What leaves the other nodes alone can only change the string in the block. -/
lemma layout_map {g : Node → Node} (h : ∀ node, Still node → g node = node) (node : Node)
    (calls : List f.Call) : (f.layout node calls).map g = f.layout (g node) calls := by
  have front : f.front.map g = f.front :=
    (List.map_congr_left fun node mem => h node (f.still_front mem)).trans (List.map_id _)
  have behind : (calls.flatMap Call.nodes).map g = calls.flatMap Call.nodes := by
    refine (List.map_congr_left fun node mem => ?_).trans (List.map_id _)
    obtain ⟨call, _, mem⟩ := List.mem_flatMap.1 mem
    exact h node (call.still_nodes mem)
  rw [layout, List.map_append, List.map_cons, front, behind, layout]

/-- The script is read as it was meant. -/
lemma ofSource_script (calls : List f.Call) :
    Nodes.ofSource (f.script calls) = f.layout f.blank calls := by
  have settled : ∀ node, Still node → node.settle = node := fun node still => if_neg still.kind
  have whole : f.front ++ [f.blank] ++ calls.flatMap Call.nodes = f.layout f.blank calls := by
    simp [layout]
  rw [Nodes.ofSource, script, Scan.feed_append, feed_declaration, feed_calls, whole,
    f.layout_map settled]
  rfl

/-! ### Where things are in the script -/

/-- The index of the keyword of a call, by the number of calls before it. -/
def callIndex (n : Nat) : Nat :=
  6 + 4 * n

variable {f} {node : Node} {calls done rest : List f.Call} {call : f.Call}

/-- Every call has four nodes. -/
lemma length_nodes (calls : List f.Call) :
    (calls.flatMap Call.nodes).length = 4 * calls.length := by
  induction calls with
  | nil => rfl
  | cons call calls ih =>
    rw [List.flatMap_cons, List.length_append, ih, List.length_cons, Call.nodes]
    simp only [List.length_cons, List.length_nil]
    omega

/-- The layout ends where the next call would begin. -/
lemma length_layout : (f.layout node calls).length = callIndex calls.length := by
  simp only [layout, List.length_append, List.length_cons, length_nodes, front, List.length_nil,
    callIndex]
  omega

/-- The nodes of a call stand outside all brackets. -/
lemma Call.parent_nodes (call : f.Call) {n : Node} (mem : n ∈ call.nodes) : n.parent = none := by
  simp only [Call.nodes, List.mem_cons, List.not_mem_nil, or_false] at mem
  obtain rfl | rfl | rfl | rfl := mem <;> rfl

/-- From the place of a call on, the layout has its nodes and those of the calls behind it. -/
lemma drop_layout : (f.layout node (done ++ call :: rest)).drop (callIndex done.length) =
    call.nodes ++ rest.flatMap Call.nodes := by
  have split : f.layout node (done ++ call :: rest) =
      f.layout node done ++ (call.nodes ++ rest.flatMap Call.nodes) := by
    simp [layout]
  rw [split, ← length_layout, List.drop_left]

/-- The nodes of a call are found from its place on. -/
lemma getElem?_layout (i : Nat) (lt : i < 4) :
    (f.layout node (done ++ call :: rest))[callIndex done.length + i]? = call.nodes[i]? := by
  rw [← List.getElem?_drop, drop_layout, List.getElem?_append_left lt]

/-- The operands of a keyword are found behind it. -/
lemma operand_of_drop {nodes behind : List Node} {k : Nat} {word : Node}
    (h : nodes.drop k = word :: behind) (kind : Kind) (nth : Nat) :
    Nodes.operand nodes k kind nth = Nodes.findOperand word.parent kind nth (k + 1) behind := by
  have found : nodes[k]? = some word := by simpa using congrArg List.head? h
  have tail : nodes.drop (k + 1) = behind := by simpa using congrArg List.tail h
  rw [Nodes.operand, found, tail]
  rfl

/-- In the body stand the return and the string. -/
lemma children_layout (string : node.parent = some bodyIndex) :
    Nodes.children (f.layout node calls) bodyIndex = [4, 5] := by
  have outside : ∀ i, ((f.layout node calls)[6 + i]?.any fun n => n.parent == some bodyIndex) =
      false := by
    intro i
    have behind : (f.layout node calls)[6 + i]? = (calls.flatMap Call.nodes)[i]? := by
      rw [layout, List.getElem?_append_right (by simp [front]; omega)]
      have sum : 6 + i - f.front.length = i + 1 := by
        simp only [front, List.length_cons, List.length_nil]
        omega
      rw [sum, List.getElem?_cons_succ]
    rw [behind]
    cases e : (calls.flatMap Call.nodes)[i]? with
    | none => rfl
    | some n =>
      obtain ⟨call, _, mem⟩ := List.mem_flatMap.1 (List.mem_of_getElem? e)
      simp [call.parent_nodes mem]
  have inside : (List.range 6).filter (fun i =>
      (f.layout node calls)[i]?.any fun n => n.parent == some bodyIndex) = [4, 5] := by
    have six : List.range 6 = [0, 1, 2, 3, 4, 5] := rfl
    rw [six]
    simp [layout, front, bodyIndex, string]
  rw [Nodes.children, length_layout, callIndex, List.range_add, List.filter_append, inside,
    List.filter_eq_nil_iff.2 (by simp [outside]), List.append_nil]

/-! ### How the statements are read -/

/-- The function that is declared. -/
def toFunction (f : Template) : Function where
  name := f.name
  rawParams := [','].intercalate f.params
  body := bodyIndex
  owner := 0
  params := f.params

/-- The parameters are read back from their list. -/
lemma items_params (f : Template) : Text.items ([','].intercalate f.params) = f.params := by
  have trimmed : f.params.map Text.trim = f.params :=
    (List.map_congr_left fun p mem => (f.params_ok p mem).trimmed).trans (List.map_id _)
  rw [Text.items_intercalate, trimmed]
  · intro p mem comma
    exact ((f.params_ok p mem).simple _ comma).2.1 rfl
  · intro p mem
    rw [(f.params_ok p mem).trimmed]
    exact (f.params_ok p mem).ne

/-- The arguments are read back from their list, without blanks around them. -/
lemma Call.items_args (call : f.Call) :
    Text.items ([','].intercalate call.args) = call.args.map Text.trim := by
  refine Text.items_intercalate (fun a mem comma => ?_) fun a mem => (call.args_ok a mem).2
  exact ((call.args_ok a mem).1 _ comma).2.1 rfl

/-- The function is called by its name. -/
lemma calledName_name (f : Template) : Statement.calledName ('*' :: f.name) = f.name := by
  have trimmed : Text.trim ('*' :: f.name) = '*' :: f.name := by
    have ends := f.name_ok.trimmed ▸ Text.trim_ends f.name
    refine Text.trim_eq_self (fun c first => ?_) fun c last => ends.2 c ?_
    · cases first
      decide
    · rwa [List.getLast?_cons_of_ne_nil f.name_ok.ne] at last
  rw [Statement.calledName, trimmed]
  exact f.name_ok.trimmed

variable {host : Host} {m : Machine}

/-- A statement is read as its keyword says. -/
lemma readAt_of_word {site : Site} {word : Text} {keyword : Keyword} (h : m.textAt site = word)
    (means : Keyword.ofText? word = some keyword) :
    Statement.readAt host m site = Statement.ofKeyword host m site keyword := by
  simp only [Statement.readAt, h, means]

/-- The first statement declares the function. -/
lemma readAt_func (h : m.nodes 0 = f.layout node calls) :
    Statement.readAt host m ⟨0, 0⟩ = .ok (.define f.toFunction) := by
  have word : m.textAt ⟨0, 0⟩ = "func".toList := by
    rw [Machine.textAt, h]
    rfl
  have name : m.operand ⟨0, 0⟩ .block 0 = some 1 := by
    rw [Machine.operand, h]
    rfl
  have params : m.operand ⟨0, 0⟩ .paren 0 = some 2 := by
    rw [Machine.operand, h]
    rfl
  have body : m.operand ⟨0, 0⟩ .block 1 = some 3 := by
    rw [Machine.operand, h]
    rfl
  have nameText : m.textAt ⟨0, 1⟩ = f.name := by
    rw [Machine.textAt, h]
    rfl
  have paramsText : m.textAt ⟨0, 2⟩ = [','].intercalate f.params := by
    rw [Machine.textAt, h]
    rfl
  rw [readAt_of_word word (by decide : _ = some Keyword.func), Statement.ofKeyword]
  simp [Statement.readFunc, Statement.requirePart, name, params, body, nameText, paramsText,
    f.name_ok.trimmed, f.name_ok.ne, Bind.bind, Except.bind, toFunction, f.items_params, bodyIndex]

/-- The statement in the body returns the text of the string. -/
lemma readAt_return (h : m.nodes 0 = f.layout node calls) (kind : node.kind = .string) :
    Statement.readAt host m ⟨0, 4⟩ = .ok (.give (.text node.value)) := by
  have word : m.textAt ⟨0, 4⟩ = "return".toList := by
    rw [Machine.textAt, h]
    rfl
  have next : (m.nodes 0)[4 + 1]? = some node := by
    rw [h]
    rfl
  rw [readAt_of_word word (by decide : _ = some Keyword.giveBack), Statement.ofKeyword]
  simp [Statement.readReturn, next, kind]

/-- Every call is read with its arguments, when the function is known. -/
lemma readAt_call (h : m.nodes 0 = f.layout node (done ++ call :: rest))
    (known : m.symbols.function? f.name = some f.toFunction) :
    Statement.readAt host m ⟨0, callIndex done.length⟩ =
      .ok (.call f.toFunction (call.args.map Text.trim)
        (m.outName ⟨0, callIndex done.length⟩)) := by
  have text : ∀ i, i < 4 → m.textAt ⟨0, callIndex done.length + i⟩ =
      (call.nodes[i]?.map Node.value).getD [] := by
    intro i lt
    rw [Machine.textAt, h, getElem?_layout i lt]
  have word : m.textAt ⟨0, callIndex done.length⟩ = "call".toList := text 0 (by decide)
  have operand : ∀ kind nth, m.operand ⟨0, callIndex done.length⟩ kind nth =
      Nodes.findOperand none kind nth (callIndex done.length + 1)
        (call.nodes.tail ++ rest.flatMap Call.nodes) := by
    intro kind nth
    rw [Machine.operand, h]
    exact operand_of_drop drop_layout kind nth
  have name : m.require ⟨0, callIndex done.length⟩ .call .string 0 = .ok ('*' :: f.name) := by
    have found : m.operand ⟨0, callIndex done.length⟩ .string 0 =
        some (callIndex done.length + 1) := operand .string 0
    rw [Machine.require, found]
    exact congrArg Except.ok (text 1 (by decide))
  have args : m.require ⟨0, callIndex done.length⟩ .call .paren 0 =
      .ok ([','].intercalate call.args) := by
    have found : m.operand ⟨0, callIndex done.length⟩ .paren 0 =
        some (callIndex done.length + 2) := operand .paren 0
    rw [Machine.require, found]
    exact congrArg Except.ok (text 2 (by decide))
  rw [readAt_of_word word (by decide : _ = some Keyword.call), Statement.ofKeyword]
  simp [Statement.readCall, name, args, Bind.bind, Except.bind, f.calledName_name, known,
    call.items_args, call.length_eq, toFunction]

end Template

end Sigil
