import Mathlib.Tactic.Common
import Sigil.Proofs.Machine.Argument

/-!
# Repeated calls of a template

A script that declares a template and calls it again and again is followed from its loading to its
end. Each call gives the text that the string has become when its arguments are bound
(`Ready.statement_traces`), so the values of the calls are the texts of `results`
(`source_traces`): the first call fills in the string, and each later one replaces the one argument
that the string shows in the text that is left. This is the string with the arguments of the call
only if no other parameter has a placeholder and nothing else is taken for the old argument
(`results_eq_filled`).
-/

namespace Sigil

/-! ### Traces of statements in a row -/

section
variable {host : Host} {m m' : Machine} {site : Site} {script : ScriptId} {i : Nat} {is : List Nat}
  {due : Machine → Site → Bool} {guard : Site → Action (Option Value) → Action Unit}
  {inner later : List (Task × Machine)} {ending ending' : Ending}

/-- Statements that are not due are passed over. -/
lemma each_of_none_due {skipped : List Nat} (h : ∀ i ∈ skipped, due m ⟨script, i⟩ = false) :
    Course.each script due guard (skipped ++ is) m = .each script due guard is m := by
  induction skipped with
  | nil => rfl
  | cons i skipped ih =>
    rw [List.cons_append, each_of_not_due (h i List.mem_cons_self),
      ih fun j mem => h j (List.mem_cons_of_mem _ mem)]

/-- A statement in a row, after which the row goes on. -/
lemma Traces.each_cons (hd : due m ⟨script, i⟩ = true) (hi : m.interrupted = false)
    (first : Traces host (.ofTask host (.statement ⟨script, i⟩) m) inner ending)
    (on : guard ⟨script, i⟩ (fun _ => ending) m = .ok () m')
    (rest : Traces host (.each script due guard is m') later ending') :
    Traces host (.each script due guard (i :: is) m)
      ((.statement ⟨script, i⟩, m) :: inner ++ later) ending' := by
  unfold Course.each
  rw [if_pos hd, hi, if_neg (by simp)]
  refine .await first ?_
  rw [on]
  exact rest

/-- A statement that went well is walked past. -/
lemma walked_ok {value : Option Value} (hi : m.interrupted = false) :
    Statement.walked site (fun _ => .ok value m') m = .ok () m' := by
  simp [Statement.walked, Run.toAction, Meaning.walkStatement, Statement.guarded, hi]

/-- Where a statement cuts a row short, nothing behind it is traced. -/
lemma Traces.each_last {signal : Signal} (hd : due m ⟨script, i⟩ = true)
    (hi : m.interrupted = false)
    (first : Traces host (.ofTask host (.statement ⟨script, i⟩) m) inner ending)
    (ends : guard ⟨script, i⟩ (fun _ => ending) m = .error signal m') :
    Traces host (.each script due guard (i :: is) m) ((.statement ⟨script, i⟩, m) :: inner ++ [])
      (.error signal m') := by
  unfold Course.each
  rw [if_pos hd, hi, if_neg (by simp)]
  refine .await first ?_
  rw [ends]
  exact .done

end

namespace Template

variable {f : Template} {host : Host} {m m' : Machine} {calls done rest : List f.Call}
  {call before : f.Call} {text : Text} {node : Node}

/-! ### One call -/

/-- The block of the function returns the string. -/
lemma Ready.block_traces (ready : Ready calls call text m) :
    Traces host (.ofTask host (.block 0 bodyIndex) m) [(.statement ⟨0, 4⟩, m)]
      (.error (.returned (.text text)) (m.beginning ⟨0, 4⟩)) := by
  obtain ⟨node, nodes, shape, value, -⟩ := ready.string
  have kind : node.kind = .string := congrArg Shape.kind shape
  have parent : node.parent = some bodyIndex := congrArg Shape.parent shape
  rw [Piece.source_chars] at value
  have read : Statement.readAt host (m.beginning ⟨0, 4⟩) ⟨0, 4⟩ = .ok (.give (.text text)) :=
    value ▸ readAt_return nodes kind
  have statement : Traces host (.ofTask host (.statement ⟨0, 4⟩) m) []
      (.error (.returned (.text text)) (m.beginning ⟨0, 4⟩)) :=
    Course.ofTask_of_read read ▸ .done
  have due : m.keywordAt ⟨0, 4⟩ = true := by
    rw [Machine.keywordAt, nodes]
    rfl
  have course : Course.ofTask host (.block 0 bodyIndex) m =
      .each 0 Machine.keywordAt Statement.guarded [4, 5] m := by
    rw [Course.ofTask, nodes, children_layout parent]
  rw [course]
  refine .each_last due ready.running statement ?_
  simp [Statement.guarded, ready.running]

/-- The arguments are ready at the beginning of a statement as well. -/
lemma Ready.began (ready : Ready calls call text m) (site : Site) :
    Ready calls call text (m.beginning site) := by
  have began : Leads { loader := .ofList [] } m _ := .began site
  exact Stage.congr ready (ready.visited.leads began) rfl rfl rfl

/-- It does not matter to the arguments which script is current. -/
lemma Ready.current (ready : Ready calls call text m) (script : Option ScriptId) :
    Ready calls call text (m.setCurrent script) :=
  Stage.congr ready (ready.visited.current script) rfl rfl rfl

/-- It does not matter to the arguments how deep the machine is. -/
lemma Ready.atDepth (ready : Ready calls call text m) (depth : Nat) :
    Ready calls call text { m with depth } :=
  Stage.congr ready (ready.visited.deeper depth) rfl rfl rfl

/-- None of the tasks is a call of the script. -/
def Aside (trace : List (Task × Machine)) : Prop :=
  ∀ c ∈ trace, ∀ i, callIndex 0 ≤ i → c.1 ≠ .statement ⟨0, i⟩

/-- A call gives what the string has become. -/
lemma Ready.call_traces (host : Host) (ready : Ready calls call text
      (m.bindArguments f.toFunction (call.args.map Text.trim))) :
    ∃ inner m', Traces host (.ofTask host (.call f.toFunction (call.args.map Text.trim)) m) inner
      (.ok (some (.text text)) m') ∧ Aside inner ∧ Ready calls call text m' := by
  have inside := ready.current (some 0)
  refine ⟨_, _, .await inside.block_traces .done, ?_, (inside.began _).current _⟩
  intro c mem i le e
  simp only [List.append_nil, List.mem_cons, List.not_mem_nil, or_false] at mem
  obtain rfl | rfl := mem
  · cases e
  · cases e
    exact absurd le (by decide)

/-- The result is stored outside the block. -/
lemma Ready.assignResult (ready : Ready (done ++ call :: rest) call text m) (out : Option Text)
    (value : Value) : Ready (done ++ call :: rest) call text
      (m.assignResult ⟨0, callIndex done.length⟩ out (some value)) := by
  have outside : m.scopeOf ⟨0, callIndex done.length⟩ = .everywhere := by
    obtain ⟨node, nodes, -⟩ := ready.string
    have word : (f.layout node (done ++ call :: rest))[callIndex done.length]? = call.nodes[0]? :=
      getElem?_layout 0 (by decide)
    rw [Machine.scopeOf, nodes, word]
    rfl
  cases out with
  | none => exact ready
  | some name =>
    show Ready _ _ _ (m.assign _ name value.toText .follow)
    rw [Machine.assign_eq_bind outside]
    exact Stage.bind_everywhere ready (outside ▸ .statement _) name _

/-- The machine in which a call is started. -/
def started (m : Machine) (site : Site) : Machine :=
  { m.beginning site with depth := m.depth + 1 }

/-- A statement that calls the function. -/
lemma Ready.statement_traces (h : m.nodes 0 = f.layout node (done ++ call :: rest))
    (known : m.symbols.function? f.name = some f.toFunction) (levels : m.depth < host.depthLimit)
    (ready : Ready (done ++ call :: rest) call text
      ((started m ⟨0, callIndex done.length⟩).bindArguments f.toFunction
        (call.args.map Text.trim))) :
    ∃ inner m', Traces host (.ofTask host (.statement ⟨0, callIndex done.length⟩) m) inner
      (.ok (some (.text text)) m') ∧ Aside inner ∧ Ready (done ++ call :: rest) call text m' := by
  have read : Statement.readAt host (m.beginning ⟨0, callIndex done.length⟩) _ = _ :=
    readAt_call h known
  obtain ⟨inner, m', called, aside, ready⟩ := ready.call_traces host
  have deep : (m.beginning ⟨0, callIndex done.length⟩).depth < host.depthLimit := levels
  rw [Course.ofTask_of_read read, Course.perform, Course.deeper, if_pos deep]
  refine ⟨_, _, .await called .done, ?_, (ready.atDepth _).assignResult _ _⟩
  intro c mem i le e
  rw [List.append_nil] at mem
  rcases List.mem_cons.1 mem with rfl | mem
  · cases e
  · exact aside c mem i le e

/-! ### Calls in a row -/

/-- The values of the calls of the script among some tasks, in order. -/
def callValues (host : Host) (trace : List (Task × Machine)) : List (Option Value) :=
  trace.filterMap fun c =>
    match c.1 with
    | .statement ⟨0, i⟩ =>
      if callIndex 0 ≤ i then
        match c.1.outcome host c.2 with
        | .ok value _ => some value
        | .error _ _ => some none
      else
        none
    | _ => none

/-- Tasks aside of the script's calls give no values of calls. -/
lemma Aside.callValues_eq {trace : List (Task × Machine)} (aside : Aside trace) :
    callValues host trace = [] := by
  refine List.filterMap_eq_nil_iff.2 fun c mem => ?_
  split
  · rename_i i e
    split
    · rename_i le
      exact absurd e (aside c mem i le)
    · rfl
  · rfl

/-- The values of calls are those among the first tasks and then those among the others. -/
lemma callValues_append (trace later : List (Task × Machine)) :
    callValues host (trace ++ later) = callValues host trace ++ callValues host later :=
  List.filterMap_append

/-- A call of the script has its outcome as value. -/
lemma callValues_cons {trace : List (Task × Machine)} {i : Nat} {value : Option Value}
    (le : callIndex 0 ≤ i) (gives : Task.outcome host (.statement ⟨0, i⟩) m = .ok value m') :
    callValues host ((.statement ⟨0, i⟩, m) :: trace) = value :: callValues host trace := by
  simp [callValues, le, gives]

/-- The indices of the operands of a call. -/
def operandIndices (n : Nat) : List Nat :=
  [callIndex n + 1, callIndex n + 2, callIndex n + 3]

/-- The operands of a call are no statements. -/
lemma walkedAt_operands (h : m.nodes 0 = f.layout node (done ++ call :: rest)) :
    ∀ i ∈ operandIndices done.length, m.walkedAt ⟨0, i⟩ = false := by
  have operand : ∀ i, i < 4 → (call.nodes[i]?.any fun n => n.kind == .keyword) = false →
      m.walkedAt ⟨0, callIndex done.length + i⟩ = false := by
    intro i lt kind
    rw [Machine.walkedAt, Machine.keywordAt, h, getElem?_layout i lt, kind]
    rfl
  intro i mem
  simp only [operandIndices, List.mem_cons, List.not_mem_nil, or_false] at mem
  obtain rfl | rfl | rfl := mem
  · exact operand 1 (by decide) rfl
  · exact operand 2 (by decide) rfl
  · exact operand 3 (by decide) rfl

/-- Every call of the script is a statement outside all blocks. -/
lemma walkedAt_call (h : m.nodes 0 = f.layout node (done ++ call :: rest)) :
    m.walkedAt ⟨0, callIndex done.length⟩ = true := by
  have word : (m.nodes 0)[callIndex done.length]? = call.nodes[0]? :=
    h ▸ getElem?_layout 0 (by decide)
  rw [Machine.walkedAt, Machine.keywordAt, Nodes.withinBlock_of_no_parent word rfl, word]
  rfl

/-- A call can be started as long as there is a level left for it. -/
lemma proper_call (h : m.nodes 0 = f.layout node (done ++ call :: rest)) (visited : Visited m)
    (levels : m.depth < host.depthLimit) :
    Task.Proper host (.statement ⟨0, callIndex done.length⟩, m) := by
  refine ⟨visited, Nat.le_of_lt levels, ?_⟩
  show callIndex done.length < (m.nodes 0).length
  rw [h, length_layout]
  simp [callIndex]

variable (done) in
/-- The call and then the operands, on which nothing is done. -/
lemma each_call {values : List (Option Value)}
    (h : m.nodes 0 = f.layout node (done ++ call :: rest)) (visited : Visited m)
    (running : m.interrupted = false) (known : m.symbols.function? f.name = some f.toFunction)
    (levels : m.depth < host.depthLimit)
    (ready : Ready (done ++ call :: rest) call text
      ((started m ⟨0, callIndex done.length⟩).bindArguments f.toFunction
        (call.args.map Text.trim)))
    (behind : ∀ m', Ready (done ++ call :: rest) call text m' → m'.depth < host.depthLimit →
      ∃ trace m'', Traces host (.each 0 Machine.walkedAt Statement.walked
        (List.range' (callIndex (done.length + 1)) (4 * rest.length)) m') trace (.ok none m'') ∧
        callValues host trace = values) :
    ∃ trace m'', Traces host (.each 0 Machine.walkedAt Statement.walked
      (List.range' (callIndex done.length) (4 * (rest.length + 1))) m) trace (.ok none m'') ∧
      callValues host trace = some (.text text) :: values := by
  obtain ⟨inner, m', called, aside, ready⟩ := ready.statement_traces h known levels
  have proper : Task.Proper host (.statement ⟨0, callIndex done.length⟩, m) :=
    proper_call h visited levels
  have depth : m'.depth = m.depth := (called.gives.leads proper).depth_eq
  obtain ⟨trace, m'', later, rfl⟩ := behind m' ready (depth ▸ levels)
  have indices : List.range' (callIndex done.length) (4 * (rest.length + 1)) =
      callIndex done.length :: (operandIndices done.length ++
        List.range' (callIndex (done.length + 1)) (4 * rest.length)) := by
    rw [Nat.mul_succ]
    rfl
  -- the operands are passed over in the machine that the call has left
  obtain ⟨node', nodes, -⟩ := ready.string
  rw [← each_of_none_due (walkedAt_operands nodes)] at later
  rw [indices]
  refine ⟨_, m'', .each_cons (walkedAt_call h) running called (walked_ok running) later, ?_⟩
  have gives : Task.outcome host (.statement ⟨0, callIndex done.length⟩) m = _ :=
    (gives_outcome proper).unique called.gives
  have le : callIndex 0 ≤ callIndex done.length := Nat.le_add_right ..
  rw [List.cons_append, callValues_cons le gives, callValues_append, aside.callValues_eq,
    List.nil_append]

/-- What calls give one after the other, when an earlier call has left a text. -/
def laterResults (before : f.Call) (text : Text) : List f.Call → List Text
  | [] => []
  | call :: rest =>
    before.followed call text :: laterResults call (before.followed call text) rest

/-- What calls give one after the other. -/
def results : List f.Call → List Text
  | [] => []
  | call :: rest => call.filled :: laterResults call call.filled rest

variable (done) in
/-- All calls behind one that was made give what is expected of them. -/
lemma Ready.rest_traces (ready : Ready (done ++ rest) before text m)
    (levels : m.depth < host.depthLimit) :
    ∃ trace m', Traces host (.each 0 Machine.walkedAt Statement.walked
      (List.range' (callIndex done.length) (4 * rest.length)) m) trace (.ok none m') ∧
      callValues host trace = (laterResults before text rest).map fun t => some (.text t) := by
  -- by induction on the calls that are left; each one starts from the text of the one before
  induction rest generalizing done before text m with
  | nil => exact ⟨[], m, .done, rfl⟩
  | cons call rest ih =>
    obtain ⟨node, nodes, -⟩ := ready.string
    refine each_call done nodes ready.visited ready.running ready.known levels ?_ ?_
    · exact ((ready.began _).atDepth _).later_call call
    · intro m' ready' levels'
      rw [List.append_cons] at ready'
      have later := ih _ ready' levels'
      rwa [List.length_append] at later

variable (host) in
/-- All calls of the script give what is expected of them. -/
lemma Stage.calls_traces (stage : Stage f calls (fun _ => none) none f.pieces m)
    (alone : ∀ name, m.symbols.variableIn name .everywhere = none)
    (levels : m.depth < host.depthLimit) :
    ∃ trace m', Traces host (.each 0 Machine.walkedAt Statement.walked
      (List.range' (callIndex 0) (4 * calls.length)) m) trace (.ok none m') ∧
      callValues host trace = (results calls).map fun t => some (.text t) := by
  cases calls with
  | nil => exact ⟨[], m, .done, rfl⟩
  | cons call rest =>
    obtain ⟨node, nodes, -⟩ := stage.string
    have begun : Leads host m _ := .began ⟨0, callIndex 0⟩
    have stage' : Stage f (call :: rest) (fun _ => none) none f.pieces
        (started m ⟨0, callIndex 0⟩) :=
      stage.congr ((stage.visited.leads begun).deeper _) rfl rfl rfl
    refine each_call [] nodes stage.visited stage.running stage.known levels ?_ ?_
    · exact stage'.first_call alone call
    · intro m' ready levels'
      exact Ready.rest_traces [call] ready levels'

/-! ### The script -/

/-- The machine with the script loaded. -/
def loaded (name : Text) (calls : List f.Call) : Machine :=
  { store := { scripts := [{ id := 0, name, nodes := f.layout f.blank calls }], current := some 0 }
    journal := [.loaded name] }

/-- Nothing is filled in when the script is loaded, for there are no variables yet. -/
lemma source_course (name : Text) (calls : List f.Call) :
    Course.ofTask host (.source name (f.script calls)) {} =
      .await (.script 0) (loaded name calls) fun ending =>
        .done (ending.leaving (·.setCurrent none)) := by
  have unfilled : Node.substitute {} 0 = id := funext fun node =>
    Node.substitute_eq_self fun _ _ => rfl
  have new : ({} : Machine).store.insert? name (f.layout f.blank calls) =
      some (0, { scripts := [{ id := 0, name, nodes := f.layout f.blank calls }] }) := rfl
  simp only [Course.ofTask, f.ofSource_script, new]
  simp [loaded, Machine.setCurrent, Machine.substituteAll, Machine.log, Store.map,
    Script.substitute, Script.mapNodes, unfilled]

/-- The machine after the declaration. -/
def declared (name : Text) (calls : List f.Call) : Machine :=
  ((loaded name calls).beginning ⟨0, 0⟩).define f.toFunction

/-- The machine with the script loaded is one that a run can come to. -/
lemma visited_loaded (name : Text) (calls : List f.Call) : Visited (loaded name calls) := by
  let host : Host := { loader := .ofList [] }
  have proper := Reachable.start.proper host name (f.script calls)
  have starts : Starts host (.source name (f.script calls), {}) (.script 0, loaded name calls) := by
    rw [Starts, source_course]
    exact .now
  exact (starts.below proper).1.1

/-- The first statement declares the function. -/
lemma declaration_traces (host : Host) (name : Text) (calls : List f.Call) :
    Traces host (.ofTask host (.statement ⟨0, 0⟩) (loaded name calls)) []
      (.ok none (declared name calls)) := by
  have nodes : ((loaded name calls).beginning ⟨0, 0⟩).nodes 0 = f.layout f.blank calls := rfl
  exact Course.ofTask_of_read (readAt_func nodes) ▸ .done

/-- After the declaration, the string is as it was written. -/
lemma stage_declared (name : Text) (calls : List f.Call) :
    Stage f calls (fun _ => none) none f.pieces (declared name calls) where
  visited := by
    have visited := visited_loaded name calls
    have traces := declaration_traces { loader := .ofList [] } name calls
    refine visited.leads (traces.gives.leads ⟨visited, Nat.zero_le _, ?_⟩)
    show 0 < (f.layout f.blank calls).length
    rw [length_layout]
    exact Nat.add_pos_left (by decide) _
  running := rfl
  known := by
    simp [declared, Machine.define, Machine.beginning, Machine.log, loaded, Table.function?,
      Table.register, Table.put, Table.lookup, Table.freshAddress, Symbol.asFunction, toFunction]
  string := ⟨f.blank, rfl, rfl, (Piece.source_ofText f.body).symm, rfl⟩
  legible := f.legible_pieces
  texts h _ := rfl
  clean _ _ e := nomatch e
  shows _ e := nomatch e

/-- The operands of the declaration are no statements. -/
lemma walkedAt_declaration (h : m.nodes 0 = f.layout node calls)
    (shape : node.toShape = f.blank.toShape) :
    ∀ i ∈ [1, 2, 3, 4, 5], m.walkedAt ⟨0, i⟩ = false := by
  have kind : node.kind = .string := congrArg Shape.kind shape
  have inside : Nodes.withinBlock (f.layout node calls) 4 = true :=
    Nodes.withinBlock_of_parent rfl rfl rfl rfl
  intro i mem
  simp only [List.mem_cons, List.not_mem_nil, or_false] at mem
  rw [Machine.walkedAt, Machine.keywordAt, h]
  obtain rfl | rfl | rfl | rfl | rfl := mem
  · rfl
  · rfl
  · rfl
  · simp [inside]
  · simp [layout, front, kind]

/-- The script as a whole. -/
lemma source_traces (levels : 0 < host.depthLimit) (name : Text) (calls : List f.Call) :
    ∃ trace m, Traces host (.ofTask host (.source name (f.script calls)) {}) trace (.ok none m) ∧
      callValues host trace = (results calls).map fun t => some (.text t) := by
  have stage := stage_declared name calls
  obtain ⟨trace, m, later, values⟩ := stage.calls_traces host (fun _ => rfl) levels
  have indices : List.range (f.layout f.blank calls).length =
      0 :: ([1, 2, 3, 4, 5] ++ List.range' (callIndex 0) (4 * calls.length)) := by
    rw [length_layout, List.range_eq_range', callIndex, Nat.add_comm]
    rfl
  have nodes : (declared name calls).nodes 0 = f.layout f.blank calls := rfl
  have first : (loaded name calls).walkedAt ⟨0, 0⟩ = true := by
    have outside : Nodes.withinBlock (f.layout f.blank calls) 0 = false :=
      Nodes.withinBlock_of_no_parent rfl rfl
    show (_ && !Nodes.withinBlock (f.layout f.blank calls) 0) = true
    rw [outside]
    rfl
  have script : Traces host (.ofTask host (.script 0) (loaded name calls))
      ((.statement ⟨0, 0⟩, loaded name calls) :: [] ++ trace) (.ok none m) := by
    show Traces host (.each 0 Machine.walkedAt Statement.walked
      (List.range (f.layout f.blank calls).length) (loaded name calls)) _ _
    rw [indices]
    refine .each_cons first rfl (declaration_traces host name calls) (walked_ok rfl) ?_
    rw [each_of_none_due (walkedAt_declaration nodes rfl)]
    exact later
  rw [source_course]
  exact ⟨_, _, .await script .done, by simpa [callValues, callIndex] using values⟩

/-! ### Fresh arguments -/

/-- If there are placeholders of one name only, and the old argument is found nowhere else, a call
makes of the text of an earlier call what it would have made of the string itself. -/
lemma Call.followed_filled (call : f.Call)
    (one : f.mentioned.length ≤ 1)
    (clear : ∀ arg ∈ f.lastName, Piece.Clear (before.argument arg) f.pieces) :
    before.followed call before.filled = call.filled := by
  have listed : ∀ {arg}, .hole arg ∈ f.pieces → arg ∈ f.mentioned :=
    fun hole => List.mem_filter.2 ⟨mem_names_of_hole hole, by simpa using hole⟩
  unfold followed filled
  cases e : f.lastName with
  | none =>
    have empty : f.mentioned = [] := List.getLast?_eq_none_iff.1 e
    refine Piece.written_congr fun arg hole => ?_
    have absurd := listed hole
    simp [empty] at absurd
  | some arg =>
    obtain ⟨front, split⟩ := List.getLast?_eq_some_iff.1 e
    have only : f.mentioned = [arg] := by
      rw [split, List.length_append, List.length_singleton] at one
      rw [split, List.length_eq_zero_iff.1 (Nat.le_zero.1 (Nat.le_of_succ_le_succ one))]
      rfl
    have mem : arg ∈ f.names := (List.mem_filter.1 (only ▸ List.mem_singleton_self arg)).1
    have same : ∀ c : f.Call, f.pieces.flatMap (Piece.written c.argument) =
        f.pieces.flatMap (Piece.written fun _ => c.argument arg) := by
      intro c
      refine Piece.written_congr fun arg' hole => ?_
      have mem := listed hole
      rw [only, List.mem_singleton] at mem
      rw [mem]
    -- with one name, filling in is writing one text in all places
    rw [same before, same call]
    exact Piece.replace_written (before.clean_argument mem).ne (clear arg e)

/-- Then every call gives what the string is with its own arguments. -/
lemma results_eq_filled (one : f.mentioned.length ≤ 1)
    (clear : ∀ call ∈ calls.dropLast, ∀ arg ∈ f.lastName,
      Piece.Clear (call.argument arg) f.pieces) :
    results calls = calls.map Call.filled := by
  cases calls with
  | nil => rfl
  | cons call rest =>
    rw [results, List.map_cons]
    congr 1
    induction rest generalizing call with
    | nil => rfl
    | cons later rest ih =>
      have fresh := Call.followed_filled later one (clear call List.mem_cons_self)
      rw [laterResults, fresh, List.map_cons]
      congr 1
      exact ih later fun call mem => clear call (List.mem_cons_of_mem _ mem)

/-- The run of the script has one trace, and the calls in it have these values. -/
lemma source_trace (levels : 0 < host.depthLimit) (name : Text) (calls : List f.Call) :
    (∃ id, (({} : Machine).runSource host name (f.script calls)).1 = .ok id) ∧
    ∃ trace, (∀ trace' ending, Traces host (.ofTask host (.source name (f.script calls)) {})
        trace' ending ↔ trace' = trace ∧ ending = .ofRun (({} : Machine).runSource host name
          (f.script calls))) ∧
      callValues host trace = (results calls).map fun t => some (.text t) := by
  obtain ⟨trace, m, traces, values⟩ := source_traces levels name calls
  have same := Reachable.start.ending_eq traces
  constructor
  · generalize ({} : Machine).runSource host name (f.script calls) = run at same
    obtain ⟨result, m'⟩ := run
    cases result with
    | ok id => exact ⟨id, rfl⟩
    | error e => cases same
  · refine ⟨trace, fun trace' ending => ⟨fun other => ?_, ?_⟩, values⟩
    · exact ⟨other.unique traces, Reachable.start.ending_eq other⟩
    · rintro ⟨rfl, rfl⟩
      exact same ▸ traces

/-- A function that returns a string with placeholders is called again and again. The run succeeds,
and the values of the calls are known: the first call fills in the string, and each later call
replaces, in the text that is left, its argument for the last parameter that has a placeholder. So
every call gives the string with its own arguments if no more than one parameter has placeholders,
and the arguments of the calls before the last one are found nowhere in the text but where they were
filled in. -/
theorem calls_yield (f : Template) (calls : List f.Call) (host : Host)
    (levels : 0 < host.depthLimit) (name : Text) :
    let run := ({} : Machine).runSource host name (f.script calls)
    (∃ id, run.1 = .ok id) ∧
    (∃ trace, (∀ trace' ending, Traces host (.ofTask host (.source name (f.script calls)) {})
        trace' ending ↔ trace' = trace ∧ ending = .ofRun run) ∧
      callValues host trace = (results calls).map fun t => some (.text t)) ∧
    (f.mentioned.length ≤ 1 →
      (∀ call ∈ calls.dropLast, ∀ arg ∈ f.lastName, Piece.Clear (call.argument arg) f.pieces) →
      results calls = calls.map Call.filled) := by
  intro run
  obtain ⟨succeeds, traced⟩ := source_trace levels name calls
  exact ⟨succeeds, traced, results_eq_filled⟩

/-- A function of one parameter, with a sign on each side of its argument. -/
def angled : Template where
  name := ['f']
  params := [['a']]
  body := "<[#f.args.a]>".toList
  name_ok := ⟨by decide, by decide, by decide⟩
  params_ok p mem := by
    cases List.mem_singleton.1 mem
    exact ⟨by decide, by decide, by decide⟩
  nodup := by decide
  body_ok := List.all_iff_forall_prop.1 (by decide)
  apart := by decide
  holes inside mem := by
    have pieces : Piece.ofText "<[#f.args.a]>".toList =
        [.char '<', .hole "f.args.a".toList, .char '>'] := by decide
    rw [pieces] at mem
    obtain rfl : inside = "f.args.a".toList := by simpa using mem
    exact ⟨['a'], by decide, by decide⟩

/-- Both calls of a function of one parameter give their own arguments. -/
theorem calls_yield_angled :
    let host : Host := { loader := .ofList [], depthLimit := 1 }
    let calls : List angled.Call :=
      [⟨[['1']], ['x'], rfl, by decide, by decide⟩, ⟨[['2']], ['y'], rfl, by decide, by decide⟩]
    0 < host.depthLimit ∧
    ∃ trace, Traces host (.ofTask host (.source "main".toList (angled.script calls)) {}) trace
        (.ofRun (({} : Machine).runSource host "main".toList (angled.script calls))) ∧
      callValues host trace = [some (.text "<1>".toList), some (.text "<2>".toList)] := by
  intro host calls
  obtain ⟨-, ⟨trace, traced, values⟩, fresh⟩ :=
    calls_yield angled calls host (by decide) "main".toList
  refine ⟨by decide, trace, (traced _ _).2 ⟨rfl, rfl⟩, ?_⟩
  rw [values, fresh (by decide) (by decide)]
  decide

/-- A function of two parameters, with a line between its arguments. -/
def dashed : Template where
  name := ['f']
  params := [['a'], ['b']]
  body := "[#f.args.a]-[#f.args.b]".toList
  name_ok := ⟨by decide, by decide, by decide⟩
  params_ok p mem := by
    simp only [List.mem_cons, List.not_mem_nil, or_false] at mem
    obtain rfl | rfl := mem <;> exact ⟨by decide, by decide, by decide⟩
  nodup := by decide
  body_ok := List.all_iff_forall_prop.1 (by decide)
  apart := by decide
  holes inside mem := by
    have pieces : Piece.ofText "[#f.args.a]-[#f.args.b]".toList =
        [.hole "f.args.a".toList, .char '-', .hole "f.args.b".toList] := by decide
    rw [pieces] at mem
    obtain rfl | rfl : inside = "f.args.a".toList ∨ inside = "f.args.b".toList := by
      simpa using mem
    · exact ⟨['a'], by decide, by decide⟩
    · exact ⟨['b'], by decide, by decide⟩

/-- It is not so that every call gives the string with its own arguments, even if the arguments are
not found in the text between the placeholders: after a call with `1` and `2`, one with `3` and `4`
gives `1-4`. -/
theorem later_call_mixes_arguments :
    ¬ ∀ (f : Template) (calls : List f.Call) (host : Host) (name : Text), 0 < host.depthLimit →
      (∀ call ∈ calls, ∀ a ∈ call.args,
        ¬ Text.trim a <:+: f.pieces.flatMap (Piece.written fun _ => [])) →
      ∀ trace ending, Traces host (.ofTask host (.source name (f.script calls)) {}) trace ending →
        callValues host trace = calls.map fun call => some (.text call.filled) := by
  intro fresh
  let host : Host := { loader := .ofList [], depthLimit := 1 }
  let calls : List dashed.Call :=
    [⟨[['1'], ['2']], ['x'], rfl, by decide, by decide⟩,
      ⟨[['3'], ['4']], ['y'], rfl, by decide, by decide⟩]
  have levels : 0 < host.depthLimit := by decide
  have apart : ∀ call ∈ calls, ∀ a ∈ call.args,
      ¬ Text.trim a ⊆ dashed.pieces.flatMap (Piece.written fun _ => []) := by decide
  obtain ⟨-, trace, traced, values⟩ := source_trace levels "main".toList calls
  have own := fresh dashed calls host "main".toList levels
    (fun call mem a ha found => apart call mem a ha found.subset) trace _
    ((traced _ _).2 ⟨rfl, rfl⟩)
  have mixed : (results calls).map (fun t => some (Value.text t)) =
      [some (.text "1-2".toList), some (.text "1-4".toList)] := by decide
  rw [values, mixed] at own
  exact absurd own (by decide)

end Template

end Sigil
