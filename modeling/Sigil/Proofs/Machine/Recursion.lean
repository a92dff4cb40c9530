import Mathlib.Tactic.Common
import Mathlib.Logic.Relation
import Sigil.Proofs.Machine.Integrity
import Sigil.Proofs.Machine.Task

/-!
# The recursion of the evaluator

The recursion of the tasks is well-founded: every task starts only tasks of a smaller rank, and it
ends as the evaluator says if they do (`ofTask_runs`). This is shown for one task after the other,
with the tasks that it starts taken as they are; `Runs` is the relation for this. By induction on
the rank, every task then gives exactly one ending, and it is the one that the evaluator computes
(`gives_outcome`).

A block and a script are runs of `Course.each` over indices, while the evaluator goes through
shapes. The two meet in `block_runs` and `walk_runs`, by induction on the nodes that are left.
-/

namespace Sigil

/-- What is asked of a task: the machine is one that can be met, a statement is that of a node, and
a function that is called is in the table. -/
def Task.Proper (host : Host) (c : Task × Machine) : Prop :=
  Visited c.2 ∧ c.2.depth ≤ host.depthLimit ∧
    match c.1 with
    | .statement site => site.index < (c.2.nodes site.script).length
    | .call f _ => ∃ name, c.2.symbols.function? name = some f
    | _ => True

/-- A task under way ends like this if the tasks that it starts end as the evaluator says; and they
are all among `expected`. -/
inductive Runs (host : Host) (expected : Task × Machine → Prop) : Course → Ending → Prop where
  | done {ending} :
    Runs host expected (.done ending) ending
  | await {task m rest ending} :
    expected (task, m) →
    Runs host expected (rest (task.outcome host m)) ending →
    Runs host expected (.await task m rest) ending

/-! ### What tasks give -/

section
variable {host : Host}

/-- A task under way gives at most one ending. -/
lemma Gives.unique {course ending ending'} (h : Gives host course ending)
    (h' : Gives host course ending') : ending = ending' := by
  induction h generalizing ending' with
  | done =>
    cases h'
    rfl
  | await _ _ ih ih' =>
    cases h' with
    | await first rest =>
      cases ih first
      exact ih' rest

/-- If the tasks that are started give what the evaluator says, so does the task that starts them.
-/
lemma Runs.gives {expected course ending} (h : Runs host expected course ending)
    (given : ∀ c, expected c → Gives host (.ofTask host c.1 c.2) (c.1.outcome host c.2)) :
    Gives host course ending := by
  induction h with
  | done => exact .done
  | await mem _ ih => exact .await (given _ mem) ih

/-- If the tasks that are started give what the evaluator says, all of them were expected. -/
lemma Runs.expected_of_awaits {expected course ending c} (h : Runs host expected course ending)
    (given : ∀ c, expected c → Gives host (.ofTask host c.1 c.2) (c.1.outcome host c.2))
    (started : Awaits host course c) : expected c := by
  induction h with
  | done => cases started
  | await mem _ ih =>
    cases started with
    | now => exact mem
    | later gives later =>
      -- what it has given can only be the expected ending
      cases gives.unique (given _ mem)
      exact ih later

end

/-! ### The evaluator as a run of tasks -/

namespace Statement

/-- What becomes of an interrupt and of the ending of a statement. -/
structure IsGuard (guard : Site → Action (Option Value) → Action Unit) : Prop where
  interrupted : ∀ {site act} {m : Machine}, m.interrupted = true →
    guard site act m = .error (.failed .interrupted) m
  congr : ∀ {site act act'} {m : Machine}, act m = act' m → guard site act m = guard site act' m
  conducts : ∀ {host left site act}, Conducts host left act → Conducts host left (guard site act)

/-- The guard of statements in blocks is one. -/
lemma guarded_isGuard : IsGuard guarded where
  interrupted h := by simp [guarded, h]
  congr h := by simp only [guarded, h]
  conducts h := h.guarded _

/-- The guard of statements in scripts is one. -/
lemma walked_isGuard : IsGuard walked where
  interrupted h := by simp [walked, Run.toAction, Meaning.walkStatement, guarded, h]
  congr h := by simp only [walked, Run.toAction, Meaning.walkStatement, guarded, h]
  conducts h := (h.walkStatement _).toAction

variable {host : Host} {m m' : Machine} {site : Site}

/-- A statement does what its node and those behind it mean. -/
lemma eval_eq (lt : site.index < (m.nodes site.script).length) :
    eval host site m = evalAt host (m.level host)
      (Meaning.ofShapes host (m.level host) site.script (site.index + 1)
        ((m.shapes site.script).drop (site.index + 1))) site m := by
  have lt' : site.index < (m.shapes site.script).length := by simpa [Machine.shapes] using lt
  rw [eval, List.drop_eq_getElem_cons lt']
  rfl

/-- Carrying out a statement does nothing but what running can do. -/
lemma eval_conducts (left : Nat) : Conducts host left (eval host site) := by
  intro m hm
  have level := ofLeft_conducts host (host.depthLimit - m.depth)
  exact (ofShapes_conducts level site.script site.index _).statement m (by omega)

end Statement

section
variable {host : Host} {m m' : Machine} {expected : Task × Machine → Prop}

/-- What a machine can start is decided by its depth, and that has not changed. -/
lemma Leads.level_eq (h : Leads host m m') : m'.level host = m.level host := by
  rw [Machine.level, Machine.level, h.depth_eq]

/-- A script that is loaded keeps its shapes. -/
lemma Leads.shapes_eq (h : Leads host m m') {id : ScriptId} {i : Nat} {shape}
    (hs : (m.shapes id)[i]? = some shape) : m'.shapes id = m.shapes id :=
  Machine.shapes_of_grown h.outlines_grow hs

/-- Whether two activities go on alike is decided where they begin. -/
lemma bind_congr_at {ε σ α β : Type} {x y : EStateM ε σ α} {f : α → EStateM ε σ β} {s : σ}
    (h : x s = y s) : (x >>= f) s = (y >>= f) s := by
  simp only [Bind.bind, EStateM.bind, h]

/-- A statement that is not due is passed over. -/
lemma each_of_not_due {script due guard} {i : Nat} {is : List Nat}
    (hd : due m ⟨script, i⟩ = false) :
    Course.each script due guard (i :: is) m = .each script due guard is m := by
  simp [Course.each, hd]

/-- One statement that is due, and then the others. -/
lemma each_runs_cons {script due guard} (isGuard : Statement.IsGuard guard) {i : Nat}
    {is : List Nat} {next : Action Unit} (hd : due m ⟨script, i⟩ = true)
    (hm : m.depth ≤ host.depthLimit) (mem : expected (.statement ⟨script, i⟩, m))
    (rest : ∀ m', Leads host m m' →
      Runs host expected (.each script due guard is m') (.silent (next m'))) :
    Runs host expected (.each script due guard (i :: is) m)
      (.silent ((guard ⟨script, i⟩ (Statement.eval host ⟨script, i⟩) >>= fun _ => next) m)) := by
  simp only [Course.each, hd, if_true, Bind.bind, EStateM.bind]
  by_cases hi : m.interrupted = true
  · rw [if_pos hi, isGuard.interrupted hi]
    exact .done
  · rw [if_neg hi]
    refine .await mem ?_
    -- the statement is settled by its ending alone
    have same : guard ⟨script, i⟩ (fun _ => Task.outcome host (.statement ⟨script, i⟩) m) m =
        guard ⟨script, i⟩ (Statement.eval host ⟨script, i⟩) m := isGuard.congr rfl
    have evaluates : Conducts host (host.depthLimit - m.depth) (Statement.eval host ⟨script, i⟩) :=
      Statement.eval_conducts _
    have leads : Leads host m (after (guard ⟨script, i⟩ (Statement.eval host ⟨script, i⟩)) m) :=
      isGuard.conducts evaluates m (by omega)
    rw [same]
    unfold after at leads
    cases e : guard ⟨script, i⟩ (Statement.eval host ⟨script, i⟩) m with
    | ok _ m' =>
      rw [e] at leads
      exact rest m' leads
    | error signal m' => exact .done

/-- The node at the front of those that are left. -/
lemma Machine.nodes_of_drop {id : ScriptId} {k : Nat} {shape shapes}
    (h : (m.shapes id).drop k = shape :: shapes) :
    (m.shapes id).drop (k + 1) = shapes ∧
      ∃ node, (m.nodes id)[k]? = some node ∧ node.toShape = shape := by
  constructor
  · rw [← List.drop_drop, h]
    rfl
  · have hs : (m.shapes id)[k]? = some shape := by
      rw [← Nat.add_zero k, ← List.getElem?_drop, h]
      rfl
    simpa [Machine.shapes] using hs

/-- What is known of a node when activities have led on. -/
lemma Leads.node_at (h : Leads host m m') {id : ScriptId} {k : Nat} {node : Node}
    (hn : (m.nodes id)[k]? = some node) :
    ∃ node', (m'.nodes id)[k]? = some node' ∧ node'.toShape = node.toShape := by
  have hs := m.shapes_getElem? hn
  rw [← h.shapes_eq hs] at hs
  simpa [Machine.shapes] using hs

/-- The statement at a node does what it means in the script as it was found. -/
lemma Leads.eval_eq (h : Leads host m m') {id : ScriptId} {k : Nat} {node : Node}
    (hn : (m.nodes id)[k]? = some node) :
    Statement.eval host ⟨id, k⟩ m' = Statement.evalAt host (m.level host)
      (Meaning.ofShapes host (m.level host) id (k + 1) ((m.shapes id).drop (k + 1))) ⟨id, k⟩ m' := by
  obtain ⟨node', hn', _⟩ := h.node_at hn
  rw [Statement.eval_eq (List.getElem?_eq_some_iff.1 hn').1, h.level_eq]
  dsimp only
  rw [h.shapes_eq (m.shapes_getElem? hn)]

/-- A block runs the statements among its children. -/
lemma block_runs {id : ScriptId} {bracket : Nat} (hm : m.depth ≤ host.depthLimit)
    (mem : ∀ {m' i node}, Leads host m m' → (m.nodes id)[i]? = some node →
      node.parent = some bracket → expected (.statement ⟨id, i⟩, m')) {k : Nat} {shapes}
    (hk : (m.shapes id).drop k = shapes) (h : Leads host m m') :
    Runs host expected
      (.each id Machine.keywordAt Statement.guarded ((List.range' k shapes.length).filter fun i =>
        (m.nodes id)[i]?.any fun node => node.parent == some bracket) m')
      (.silent ((Meaning.ofShapes host (m.level host) id k shapes).block bracket m')) := by
  -- by induction on the nodes that are left; the texts change on the way, the shapes do not
  induction shapes generalizing k m' with
  | nil => exact .done
  | cons shape shapes ih =>
    obtain ⟨hk', node, hn, rfl⟩ := Machine.nodes_of_drop hk
    obtain ⟨node', hn', hs⟩ := h.node_at hn
    have kind : node'.kind = node.kind := congrArg Shape.kind hs
    rw [List.length_cons, List.range'_succ, List.filter_cons]
    simp only [hn, Option.any_some, beq_iff_eq, Meaning.ofShapes, Meaning.cons]
    by_cases hp : node.parent = some bracket
    · rw [if_pos hp]
      by_cases hw : node.kind = .keyword
      · have due : m'.keywordAt ⟨id, k⟩ = true := by simp [Machine.keywordAt, hn', kind, hw]
        rw [if_pos ⟨hw, hp⟩, bind_congr_at
          (Statement.guarded_isGuard.congr (hk' ▸ (h.eval_eq hn).symm))]
        exact each_runs_cons Statement.guarded_isGuard due (h.depth_eq ▸ hm) (mem h hn hp)
          fun m'' h' => ih hk' (h.trans h')
      · have due : m'.keywordAt ⟨id, k⟩ = false := by simp [Machine.keywordAt, hn', kind, hw]
        rw [if_neg fun h => hw h.1, each_of_not_due due]
        exact ih hk' h
    · rw [if_neg hp, if_neg fun h => hp h.2]
      exact ih hk' h

/-- A node outside all blocks that is a keyword is run before those behind it. -/
lemma cons_walk {level : Level} {behind : Meaning} {site : Site} {shape : Shape} :
    (Meaning.cons host level site shape behind).walk.toAction m =
      if shape.kind = .keyword ∧ Nodes.withinBlock (m.nodes site.script) site.index = false then
        (Statement.walked site (Statement.evalAt host level behind site) >>= fun _ =>
          behind.walk.toAction) m
      else
        behind.walk.toAction m := by
  by_cases h : shape.kind = .keyword ∧ Nodes.withinBlock (m.nodes site.script) site.index = false
  · simp only [Meaning.cons, Run.toAction, if_pos h, Statement.walked, Bind.bind, EStateM.bind]
    cases Meaning.walkStatement site (Statement.evalAt host level behind site) m <;> rfl
  · simp only [Meaning.cons, Run.toAction, if_neg h]

/-- A script runs the statements outside all blocks. -/
lemma walk_runs {id : ScriptId} (hm : m.depth ≤ host.depthLimit)
    (mem : ∀ {m' i node}, Leads host m m' → (m.nodes id)[i]? = some node →
      expected (.statement ⟨id, i⟩, m')) {k : Nat} {shapes}
    (hk : (m.shapes id).drop k = shapes) (h : Leads host m m') :
    Runs host expected
      (.each id Machine.walkedAt Statement.walked (List.range' k shapes.length) m')
      (.silent ((Meaning.ofShapes host (m.level host) id k shapes).walk.toAction m')) := by
  induction shapes generalizing k m' with
  | nil => exact .done
  | cons shape shapes ih =>
    obtain ⟨hk', node, hn, rfl⟩ := Machine.nodes_of_drop hk
    obtain ⟨node', hn', hs⟩ := h.node_at hn
    have kind : node'.kind = node.kind := congrArg Shape.kind hs
    rw [List.length_cons, List.range'_succ, Meaning.ofShapes, cons_walk]
    by_cases hw : node.kind = .keyword ∧ Nodes.withinBlock (m'.nodes id) k = false
    · have due : m'.walkedAt ⟨id, k⟩ = true := by
        simp [Machine.walkedAt, Machine.keywordAt, hn', kind, hw]
      rw [if_pos hw, bind_congr_at (Statement.walked_isGuard.congr (hk' ▸ (h.eval_eq hn).symm))]
      exact each_runs_cons Statement.walked_isGuard due (h.depth_eq ▸ hm) (mem h hn)
        fun m'' h' => ih hk' (h.trans h')
    · have due : m'.walkedAt ⟨id, k⟩ = false := by
        simpa [Machine.walkedAt, Machine.keywordAt, hn', kind] using hw
      rw [if_neg hw, each_of_not_due due]
      exact ih hk' h

/-- The nodes in front of a block that have other parents do not matter to it. -/
lemma ofShapes_block_skip {level : Level} {id : ScriptId} {bracket n k : Nat} {shapes}
    (h : ∀ i < n, ∀ shape, shapes[i]? = some shape → shape.parent ≠ some bracket) :
    (Meaning.ofShapes host level id k shapes).block bracket =
      (Meaning.ofShapes host level id (k + n) (shapes.drop n)).block bracket := by
  induction n generalizing k shapes with
  | zero => rfl
  | succ n ih =>
    cases shapes with
    | nil => rfl
    | cons shape shapes =>
      have first := h 0 (by omega) shape rfl
      have e : k + (n + 1) = k + 1 + n := by omega
      simp only [Meaning.ofShapes, Meaning.cons, first, and_false, if_false, List.drop_succ_cons, e]
      exact ih fun i lt shape hs => h (i + 1) (by omega) shape hs

/-! ### Each task starts smaller ones -/

/-- A task that another one may start: one in good order, of a smaller rank. -/
def Task.Below (host : Host) (c c' : Task × Machine) : Prop :=
  Task.Proper host c' ∧ Prod.Lex (· < ·) (· < ·) (rank host c') (rank host c)

/-- At the last level, nothing can be started. -/
lemma Machine.level_of_le (h : host.depthLimit ≤ m.depth) : m.level host = .ofLeft host 0 := by
  rw [level, Nat.sub_eq_zero_of_le h]

/-- What is started at any other level has one level less. -/
lemma Machine.level_of_lt (h : m.depth < host.depthLimit) :
    m.level host =
      { call f args :=
          (Run.function host ({ m with depth := m.depth + 1 }.level host) f args).nested
        load name text :=
          (Run.source host ({ m with depth := m.depth + 1 }.level host) name text).nested } := by
  have e : host.depthLimit - m.depth = host.depthLimit - (m.depth + 1) + 1 := by omega
  rw [level, e]
  rfl

/-- Going on after a task is going on after the activity that it is. -/
lemma Runs.andThen {x : Action (Option Value)} {next : Option Value → Action (Option Value)} :
    Runs host expected (.done (Ending.andThen next (x m))) ((x >>= next) m) := by
  simp only [Bind.bind, EStateM.bind]
  cases x m <;> exact .done

/-- Going on after a task that gives no value is going on after its activity. -/
lemma Runs.andThen_silent {α : Type} {x : Action α} {next : Action (Option Value)} :
    Runs host expected (.done ((Ending.silent (x m)).andThen fun _ => next))
      ((x >>= fun _ => next) m) := by
  simp only [Bind.bind, EStateM.bind]
  cases x m <;> exact .done

/-- A task one level deeper whose ending is that of an activity. -/
lemma deeper_runs {task : Task} {α : Type} {run : Run α}
    {next : Option Value → Action (Option Value)}
    {next' : α → Action (Option Value)} (hm : m.depth < host.depthLimit)
    (mem : expected (task, { m with depth := m.depth + 1 }))
    (same : ∀ change : Machine → Machine,
      ((task.outcome host { m with depth := m.depth + 1 }).leaving change).andThen next =
        match run { m with depth := m.depth + 1 } with
        | .ok a m' => next' a (change m')
        | .error e m' => .error (.failed e) (change m')) :
    Runs host expected (.deeper host task m next) ((run.nested.toAction >>= next') m) := by
  rw [Course.deeper, if_pos hm]
  refine .await mem ?_
  rw [same]
  simp only [Bind.bind, EStateM.bind, Run.toAction, Run.nested]
  cases run { m with depth := m.depth + 1 } <;> exact .done

/-- Nothing is started beyond the last level. -/
lemma deeper_refused {task : Task} {α : Type} {next : Option Value → Action (Option Value)}
    {next' : α → Action (Option Value)} (hm : ¬ m.depth < host.depthLimit) :
    Runs host expected (.deeper host task m next)
      (((Run.refuse host : Run α).toAction >>= next') m) := by
  rw [Course.deeper, if_neg hm]
  exact .done

/-- On the same level, a task is below another one if fewer nodes lie ahead of it. -/
lemma below_of_ahead {task task' : Task} (proper : Task.Proper host (task', m'))
    (depth : m'.depth = m.depth) (ahead : task'.ahead m' < task.ahead m) :
    Task.Below host (task, m) (task', m') := by
  refine ⟨proper, ?_⟩
  rw [rank, rank, depth]
  exact .right _ ahead

/-- What a statement starts one level deeper is below it. -/
lemma below_deeper {site : Site} {task : Task} (deep : m.depth < host.depthLimit)
    (proper : Task.Proper host (task, { m with depth := m.depth + 1 })) :
    Task.Below host (.statement site, m) (task, { m with depth := m.depth + 1 }) := by
  refine ⟨proper, .left _ _ ?_⟩
  show host.depthLimit - (m.depth + 1) < host.depthLimit - m.depth
  omega

/-- A block behind a statement runs as it does in the whole script: its children lie behind it, so
also behind the statement. -/
lemma block_behind {site : Site} {body : Nat} {level : Level} (visited : Visited m)
    (behind : site.index < body) :
    (Meaning.ofShapes host level site.script (site.index + 1)
      ((m.shapes site.script).drop (site.index + 1))).block body =
    (Meaning.ofShapes host level site.script 0 (m.shapes site.script)).block body := by
  have skip : (Meaning.ofShapes host level site.script 0 (m.shapes site.script)).block body =
      (Meaning.ofShapes host level site.script (0 + (site.index + 1))
        ((m.shapes site.script).drop (site.index + 1))).block body := by
    refine ofShapes_block_skip fun i lt shape hs hp => ?_
    have := (visited.integrity.forest site.script hs hp).1
    omega
  rw [skip, Nat.zero_add]

/-- A statement that was read, as a course. -/
lemma perform_runs {site : Site} {s : Statement} (visited : Visited m)
    (hm : m.depth ≤ host.depthLimit) (lt : site.index < (m.nodes site.script).length)
    (known : s.Known host m site) :
    Runs host (Task.Below host (.statement site, m)) (.perform host site s m)
      (s.perform (m.level host) (.ofShapes host (m.level host) site.script (site.index + 1)
        ((m.shapes site.script).drop (site.index + 1))) site m) := by
  cases s with
  | giveNext word =>
    obtain ⟨next, hn, _⟩ := known
    have lt' := (List.getElem?_eq_some_iff.1 hn).1
    refine .await (below_of_ahead ⟨visited, hm, lt'⟩ rfl ?_) ?_
    · show (m.nodes site.script).length - (site.index + 1) <
        (m.nodes site.script).length - site.index
      omega
    · exact .andThen
  | call f args out =>
    by_cases deep : m.depth < host.depthLimit
    · rw [Machine.level_of_lt deep]
      refine deeper_runs deep (below_deeper deep ⟨visited.deeper _, deep, known⟩) fun change => ?_
      simp only [Task.outcome, Run.toAction]
      cases Run.function host ({ m with depth := m.depth + 1 }.level host) f args
        { m with depth := m.depth + 1 } <;> rfl
    · rw [Machine.level_of_le (Nat.le_of_not_lt deep)]
      exact deeper_refused deep
  | load name source =>
    by_cases deep : m.depth < host.depthLimit
    · rw [Machine.level_of_lt deep]
      refine deeper_runs deep (below_deeper deep ⟨visited.deeper _, deep, trivial⟩) fun change => ?_
      simp only [Task.outcome, Run.toAction]
      cases Run.source host ({ m with depth := m.depth + 1 }.level host) name source
        { m with depth := m.depth + 1 } <;> rfl
    · rw [Machine.level_of_le (Nat.le_of_not_lt deep)]
      exact deeper_refused deep
  | branch holds body =>
    cases holds with
    | false => exact .done
    | true =>
      obtain ⟨_, block, _, hb, behind, _⟩ := Nodes.operand_inv known
      have lt' := (List.getElem?_eq_some_iff.1 hb).1
      refine .await (below_of_ahead ⟨visited, hm, trivial⟩ rfl ?_) ?_
      · show (m.nodes site.script).length - body < (m.nodes site.script).length - site.index
        omega
      · rw [Statement.perform, block_behind visited behind]
        exact .andThen_silent
  | nothing => exact .done
  | print line => exact .done
  | declare name text => exact .done
  | define f => exact .done
  | give value => exact .done
  | compare holds => exact .done
  | edit address text => exact .done
  | read out text => exact .done
  | exportAll => exact .done
  | native code source out => exact .done

/-- A statement starts what its reading says. -/
lemma statement_runs {site : Site} (proper : Task.Proper host (.statement site, m)) :
    Runs host (Task.Below host (.statement site, m)) (.ofTask host (.statement site) m)
      (Task.outcome host (.statement site) m) := by
  obtain ⟨visited, hm, lt⟩ := proper
  have began : Leads host m _ := .began site
  rw [Task.outcome, Statement.eval_eq lt]
  simp only [Course.ofTask, Statement.evalAt]
  cases e : Statement.readAt host (m.log (.began site m.store.current m.depth)) site with
  | error error => exact .done
  | ok s => exact perform_runs (visited.leads began) hm lt (Statement.readAt_inv e)

/-- A script that is loaded keeps the number of its nodes. -/
lemma Leads.length_nodes (h : Leads host m m') {id : ScriptId} {i : Nat} {node : Node}
    (hn : (m.nodes id)[i]? = some node) : (m'.nodes id).length = (m.nodes id).length := by
  have e := congrArg List.length (h.shapes_eq (m.shapes_getElem? hn))
  simpa [Machine.shapes] using e

/-- The statement of a node, after whatever activities. -/
lemma Leads.proper_statement (h : Leads host m m') (visited : Visited m)
    (hm : m.depth ≤ host.depthLimit) {id : ScriptId} {i : Nat} {node : Node}
    (hn : (m.nodes id)[i]? = some node) : Task.Proper host (.statement ⟨id, i⟩, m') := by
  refine ⟨visited.leads h, h.depth_eq ▸ hm, ?_⟩
  show i < (m'.nodes id).length
  rw [h.length_nodes hn]
  exact (List.getElem?_eq_some_iff.1 hn).1

/-- A block starts the statements behind its bracket. -/
lemma blockTask_runs {id : ScriptId} {bracket : Nat}
    (proper : Task.Proper host (.block id bracket, m)) :
    Runs host (Task.Below host (.block id bracket, m)) (.ofTask host (.block id bracket) m)
      (Task.outcome host (.block id bracket) m) := by
  obtain ⟨visited, hm, -⟩ : Visited m ∧ m.depth ≤ host.depthLimit ∧ True := proper
  have mem : ∀ {m' i node}, Leads host m m' → (m.nodes id)[i]? = some node →
      node.parent = some bracket →
      Task.Below host (.block id bracket, m) (.statement ⟨id, i⟩, m') := by
    intro m' i node h hn hp
    refine below_of_ahead (h.proper_statement visited hm hn) h.depth_eq ?_
    have behind := (visited.integrity.forest id (m.shapes_getElem? hn) hp).1
    have lt := (List.getElem?_eq_some_iff.1 hn).1
    show (m'.nodes id).length - i < (m.nodes id).length - bracket
    rw [h.length_nodes hn]
    omega
  have runs := block_runs hm mem List.drop_zero .refl
  rw [Machine.shapes, List.length_map, ← List.range_eq_range'] at runs
  exact runs

/-- A script starts its statements. -/
lemma scriptTask_runs {id : ScriptId} (proper : Task.Proper host (.script id, m)) :
    Runs host (Task.Below host (.script id, m)) (.ofTask host (.script id) m)
      (Task.outcome host (.script id) m) := by
  obtain ⟨visited, hm, -⟩ : Visited m ∧ m.depth ≤ host.depthLimit ∧ True := proper
  have mem : ∀ {m' i node}, Leads host m m' → (m.nodes id)[i]? = some node →
      Task.Below host (.script id, m) (.statement ⟨id, i⟩, m') := by
    intro m' i node h hn
    refine below_of_ahead (h.proper_statement visited hm hn) h.depth_eq ?_
    show (m'.nodes id).length - i < (m.nodes id).length + 1
    rw [h.length_nodes hn]
    omega
  have runs := walk_runs hm mem List.drop_zero .refl
  rw [Machine.shapes, List.length_map, ← List.range_eq_range'] at runs
  exact runs

/-- A call starts the block of the function. -/
lemma callTask_runs {f : Function} {args : List Text}
    (proper : Task.Proper host (.call f args, m)) :
    Runs host (Task.Below host (.call f args, m)) (.ofTask host (.call f args) m)
      (Task.outcome host (.call f args) m) := by
  obtain ⟨visited, hm, name, hf⟩ : Visited m ∧ m.depth ≤ host.depthLimit ∧
    ∃ name, m.symbols.function? name = some f := proper
  have bound : Leads host m (m.bindArguments f args) := (bindArguments_leads hf args).1
  have body : Task.Proper host
      (.block f.owner f.body, (m.bindArguments f args).setCurrent (some f.owner)) :=
    ⟨(visited.leads bound).current _, bound.depth_eq ▸ hm, trivial⟩
  refine .await (below_of_ahead body bound.depth_eq ?_) ?_
  · have int := visited.integrity
    obtain ⟨_, _, _, b, _, hb, _⟩ := int.functions f (int.ordered.function_inv hf).1
    obtain ⟨s, node, _, _, _⟩ := Machine.shapes_inv hb
    have e := congrArg List.length (bound.shapes_eq hb)
    simp only [Machine.shapes, List.length_map] at e
    show ((m.bindArguments f args).nodes f.owner).length - f.body <
      (m.nodes f.owner).length - f.body + 1
    omega
  · have level : ((m.bindArguments f args).setCurrent (some f.owner)).level host = m.level host :=
      bound.level_eq
    simp only [Task.outcome, Run.toAction, Run.function, Run.within, level]
    cases (Meaning.ofScript host (m.level host) f.owner
        ((m.bindArguments f args).setCurrent (some f.owner))).block f.body
        ((m.bindArguments f args).setCurrent (some f.owner)) with
    | ok _ m' => exact .done
    | error signal m' => cases signal <;> exact .done

/-- A script that was loaded has the nodes of its source. -/
lemma length_nodes_loaded {name text : Text} {id : ScriptId} {store : Store}
    (new : m.store.insert? name (Nodes.ofSource text) = some (id, store)) :
    (({ m with store }.log (.loaded name)).substituteAll.nodes id).length =
      (Nodes.ofSource text).length := by
  obtain ⟨_, rfl, rfl⟩ := Store.insert_inv new
  rw [Machine.length_nodes_substituteAll]
  exact congrArg List.length ((m.store.nodes_snoc _ m.store.size).trans (if_pos rfl))

/-- A source that can be loaded starts its script. -/
lemma sourceTask_runs {name text : Text} (proper : Task.Proper host (.source name text, m)) :
    Runs host (Task.Below host (.source name text, m)) (.ofTask host (.source name text) m)
      (Task.outcome host (.source name text) m) := by
  obtain ⟨visited, hm, -⟩ : Visited m ∧ m.depth ≤ host.depthLimit ∧ True := proper
  simp only [Course.ofTask, Task.outcome, Run.toAction, Run.source]
  cases new : m.store.insert? name (Nodes.ofSource text) with
  | none => exact .done
  | some added =>
    obtain ⟨id, store⟩ := added
    have loaded : Leads host m _ := .loaded new
    have length : (({ m with store }.log (.loaded name)).substituteAll.nodes id).length =
        (Nodes.ofSource text).length := length_nodes_loaded new
    dsimp only
    generalize ({ m with store }.log (.loaded name)).substituteAll = m' at loaded length ⊢
    have script : Task.Proper host (.script id, m'.setCurrent (some id)) :=
      ⟨(visited.leads loaded).current _, loaded.depth_eq ▸ hm, trivial⟩
    refine .await (below_of_ahead script loaded.depth_eq ?_) ?_
    · show (m'.nodes id).length + 1 < (Nodes.ofSource text).length + 2
      omega
    · have level : (m'.setCurrent (some id)).level host = m.level host := loaded.level_eq
      simp only [Task.outcome, Run.script, Run.within, Run.toAction, level]
      cases (Meaning.ofScript host (m.level host) id (m'.setCurrent (some id))).walk
        (m'.setCurrent (some id)) <;> exact .done

/-- Every task starts only tasks below it, and ends as the evaluator says. -/
lemma ofTask_runs {c : Task × Machine} (proper : Task.Proper host c) :
    Runs host (Task.Below host c) (.ofTask host c.1 c.2) (c.1.outcome host c.2) := by
  obtain ⟨task, m⟩ := c
  cases task with
  | statement site => exact statement_runs proper
  | block id bracket => exact blockTask_runs proper
  | script id => exact scriptTask_runs proper
  | call f args => exact callTask_runs proper
  | source name text => exact sourceTask_runs proper

/-- Tasks are taken up in the order of their ranks. -/
lemma rank_wf (host : Host) :
    WellFounded fun c' c => Prod.Lex (· < ·) (· < ·) (rank host c') (rank host c) :=
  InvImage.wf (rank host) (Prod.lex Nat.lt_wfRel Nat.lt_wfRel).wf

/-- Every task gives the ending that the evaluator computes. -/
lemma gives_outcome {c : Task × Machine} (proper : Task.Proper host c) :
    Gives host (.ofTask host c.1 c.2) (c.1.outcome host c.2) := by
  induction c using (rank_wf host).induction with
  | _ c ih => exact (ofTask_runs proper).gives fun c' below => ih c' below.2 below.1

/-- Whatever a task starts is below it. -/
lemma Starts.below {c c' : Task × Machine} (h : Starts host c c') (proper : Task.Proper host c) :
    Task.Below host c c' :=
  (ofTask_runs proper).expected_of_awaits (fun _ below => gives_outcome below.1) h

/-- Whatever is started in the course of a task is in good order. -/
lemma proper_of_starts {c c' : Task × Machine} (h : Relation.ReflTransGen (Starts host) c c')
    (proper : Task.Proper host c) : Task.Proper host c' := by
  induction h with
  | refl => exact proper
  | tail _ starts ih => exact (starts.below ih).1

end

/-- The ending that a run by the host comes to. -/
def Ending.ofRun {α : Type} : Except Error α × Machine → Ending
  | (.ok _, m) => .ok none m
  | (.error e, m) => .error (.failed e) m

/-- A run by the host is a task. -/
lemma outcome_source {host : Host} {m : Machine} (hm : m.depth = 0) (name text : Text) :
    Task.outcome host (.source name text) m = .ofRun (m.runSource host name text) := by
  have level : m.level host = .outermost host := by
    rw [Machine.level, hm]
    rfl
  simp only [Task.outcome, Run.toAction, Machine.runSource, Machine.run, level]
  cases Run.source host (.outermost host) name text m <;> rfl

/-- Every run ends, with any host, after any other runs. The recursion of the tasks, in which
nothing limits how far it may go, gives exactly one ending to the run of a source, and it is the
outcome of `runSource`; along the way, every task that is started has fewer levels left than the
task that starts it, or as many levels and fewer nodes ahead. The run of a file is the run of its
source, or fails at once. -/
theorem Reachable.recursion_ends {m : Machine} (h : Reachable m) (host : Host) :
    (∀ name text,
      (∀ ending, Gives host (.ofTask host (.source name text) m) ending ↔
        ending = .ofRun (m.runSource host name text)) ∧
      ∀ c, Relation.ReflTransGen (Starts host) (.source name text, m) c → ∀ c', Starts host c c' →
        Prod.Lex (· < ·) (· < ·) (rank host c') (rank host c)) ∧
    ∀ name,
      (∃ text, host.loader name = .ok text ∧ m.runFile host name = m.runSource host name text) ∨
      ∃ failure, host.loader name = .error failure ∧
        m.runFile host name = (.error (.load name failure), m) := by
  constructor
  · intro name text
    have proper : Task.Proper host (.source name text, m) :=
      ⟨h.visited, h.depth_eq.symm ▸ Nat.zero_le _, trivial⟩
    have gives := gives_outcome proper
    rw [outcome_source h.depth_eq] at gives
    refine ⟨fun ending => ⟨fun other => other.unique gives, fun e => e ▸ gives⟩, ?_⟩
    intro c started c' starts
    exact (starts.below (proper_of_starts started proper)).2
  · intro name
    unfold Machine.runFile
    cases host.loader name with
    | ok text => exact .inl ⟨text, rfl, rfl⟩
    | error failure => exact .inr ⟨failure, rfl, rfl⟩

/-- A function that calls itself is stopped where the levels end. -/
theorem recursion_ends_self_call :
    let host : Host := { loader := .ofList [], depthLimit := 2 }
    let source := "@func \x7bf\x7d () \x7b @call \"f\" () \x7d @call \"f\" ()".toList
    ∃ m, Gives host (.ofTask host (.source ['a'] source) {})
      (.error (.failed (.tooDeep 2 2)) m) := by
  intro host source
  have ends := ((Reachable.recursion_ends .start host).1 ['a'] source).1
  refine ⟨(({} : Machine).runSource host ['a'] source).2, (ends _).2 ?_⟩
  have failed : (({} : Machine).runSource host ['a'] source).1 = .error (.tooDeep 2 2) := by
    decide +kernel
  generalize ({} : Machine).runSource host ['a'] source = run at failed ⊢
  obtain ⟨outcome, m⟩ := run
  cases failed
  rfl

end Sigil
