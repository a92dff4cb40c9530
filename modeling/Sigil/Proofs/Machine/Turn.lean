import Mathlib.Tactic.Common
import Sigil.Proofs.Machine.Trace

/-!
# How often a statement has its turn

The statements of a script outside all blocks run when the script is loaded, and no script is loaded
twice. A block never holds such a statement, so no call and no `if` gets to it. There is one more
way: a `return` carries out the keyword right behind it, also one outside all blocks, and this does
not take the place of the keyword's own turn.

The proof keeps accounts for one site. A script that is not loaded yet still has a turn to give
(`Machine.turns`), a statement and a script that are started have theirs (`Task.turns`), and each
`return` right before the site adds one. `Task.Accounts` says that no task carries out the statement
more often than its turns allow.
-/

namespace Sigil

/-- The task carries out the statement at the site. -/
def Task.isAt (site : Site) (c : Task × Machine) : Bool :=
  match c.1 with
  | .statement s => s = site
  | _ => false

/-- The task carries out a `return` that stands right before the site. -/
def Task.returnsInto (site : Site) (c : Task × Machine) : Bool :=
  match c.1 with
  | .statement s => s.next = site && Keyword.ofText? (c.2.textAt s) = some .giveBack
  | _ => false

/-- The node at the site is not inside a block. -/
def Machine.Outside (site : Site) (m : Machine) : Prop :=
  Nodes.withinBlock (m.nodes site.script) site.index = false

/-- The turn that a statement gets when its script is loaded, if it is not loaded yet. -/
def Machine.turns (site : Site) (m : Machine) : Nat :=
  if site.script < m.store.size then 0 else 1

/-- The turn that a task has for the statement at a site. -/
def Task.turns (site : Site) : Task → Nat
  | .statement s => if s = site then 1 else 0
  | .script id => if id = site.script then 1 else 0
  | _ => 0

/-- What is run as a block is a block. -/
def Task.OverBlock (c : Task × Machine) : Prop :=
  match c.1 with
  | .block id b => ∃ shape, (c.2.shapes id)[b]? = some shape ∧ shape.kind = .block
  | _ => True

/-- A task carries out a statement outside all blocks no more often than there are turns for it, and
`return`s right before it. -/
def Task.Accounts (site : Site) (c : Task × Machine) (trace : List (Task × Machine))
    (ending : Ending) : Prop :=
  ending.machine.Outside site →
    (c :: trace).countP (Task.isAt site) + ending.machine.turns site ≤
      c.1.turns site + c.2.turns site + (c :: trace).countP (Task.returnsInto site)

/-! ### Machines -/

section
variable {host : Host} {m m' : Machine} {site : Site}

/-- Scripts that are added do not put a node outside all blocks. -/
lemma Machine.Outside.of_grown (grown : m.store.outlines <+: m'.store.outlines)
    (h : m'.Outside site) : m.Outside site := by
  unfold Outside at h ⊢
  cases e : (m.nodes site.script)[site.index]? with
  | none => simp [Nodes.withinBlock, e]
  | some node =>
    have same : m'.shapes site.script = m.shapes site.script :=
      shapes_of_grown grown (m.shapes_getElem? e)
    rw [← h]
    exact (Nodes.withinBlock_congr same site.index).symm

/-- Where it is quiet, what is outside all blocks was outside before. -/
lemma Machine.Quiet.outside (quiet : m.Quiet m') (h : m'.Outside site) : m.Outside site :=
  h.of_grown (quiet.outlines ▸ List.prefix_refl _)

/-- Turns depend on the scripts alone. -/
lemma Machine.turns_eq (h : m'.store.outlines = m.store.outlines) :
    m'.turns site = m.turns site := by
  have size : m'.store.size = m.store.size := by
    simpa [Store.outlines, Store.size] using congrArg List.length h
  rw [Machine.turns, Machine.turns, size]

/-- What is outside all blocks does not belong to a block. -/
lemma Machine.Outside.not_child (h : m.Outside site) {b i : Nat} {shape : Shape}
    (hb : (m.shapes site.script)[b]? = some shape) (hk : shape.kind = .block)
    (mem : i ∈ Nodes.children (m.nodes site.script) b) : i ≠ site.index := by
  rintro rfl
  obtain ⟨block, hn, rfl⟩ : ∃ block, (m.nodes site.script)[b]? = some block ∧ _ = shape := by
    simpa [shapes] using hb
  obtain ⟨_, child⟩ := List.mem_filter.1 mem
  cases e : (m.nodes site.script)[site.index]? with
  | none => simp [e] at child
  | some node =>
    have parent : node.parent = some b := by simpa [e] using child
    have inside := Nodes.withinBlock_of_parent e parent hn hk
    rw [h] at inside
    cases inside

/-- Loading a script takes the turns that it had to give. -/
lemma turns_loaded (site : Site) {name : Text} {nodes : List Node} {id : ScriptId} {store : Store}
    (new : m.store.insert? name nodes = some (id, store)) :
    (if id = site.script then 1 else 0) + Machine.turns site { m with store } = m.turns site := by
  obtain ⟨_, rfl, rfl⟩ := Store.insert_inv new
  have size : Store.size { m.store with scripts := m.store.scripts ++
      [{ id := m.store.size, name, nodes }] } = m.store.size + 1 := by
    simp [Store.size]
  have taken : ∀ script size : Nat, (if size = script then 1 else 0) +
      (if script < size + 1 then 0 else 1) = if script < size then 0 else 1 := by
    intro script size
    split <;> split <;> split <;> omega
  rw [Machine.turns, Machine.turns, size]
  exact taken site.script m.store.size

end

/-! ### Tasks -/

section
variable {host : Host} {m : Machine} {site : Site}

/-- What a statement starts as a block is a block. -/
lemma Statement.Launches.overBlock {here s task m'} (known : Statement.Known host m here s)
    (h : Statement.Launches host m here s task m') : Task.OverBlock (task, m') := by
  cases h with
  | giveNext word => trivial
  | call f args out lt => trivial
  | branch body =>
    obtain ⟨_, block, _, hb, _, _, kind⟩ := Nodes.operand_inv known
    exact ⟨block.toShape, m.shapes_getElem? hb, kind⟩
  | load name source lt => trivial

/-- What a statement starts has a turn only by a `return` right before. -/
lemma Statement.Launches.turns_le {here s task m'} (site : Site)
    (read : Statement.readAt host (m.beginning here) here = .ok s)
    (h : Statement.Launches host (m.beginning here) here s task m') :
    task.turns site ≤ if Task.returnsInto site (.statement here, m) then 1 else 0 := by
  cases h with
  | giveNext word =>
    have word : Keyword.ofText? (m.textAt here) = some .giveBack := Statement.readAt_giveNext read
    simp [Task.turns, Task.returnsInto, word]
  | call f args out lt => exact Nat.zero_le _
  | branch body => exact Nat.zero_le _
  | load name source lt => exact Nat.zero_le _

/-- The body of a function is a block. -/
lemma overBlock_call {f : Function} {args : List Text}
    (proper : Task.Proper host (.call f args, m)) :
    Task.OverBlock (.block f.owner f.body, (m.bindArguments f args).setCurrent (some f.owner)) := by
  obtain ⟨visited, _, name, hf⟩ := proper
  have int := visited.integrity
  obtain ⟨_, _, _, body, _, hb, _, kind, _⟩ := int.functions f (int.ordered.function_inv hf).1
  have same : (m.bindArguments f args).shapes f.owner = m.shapes f.owner :=
    Machine.shapes_eq (Machine.Quiet.bindArguments m f args).outlines f.owner
  exact ⟨body, same ▸ hb, kind⟩

/-- The indices of a script meet a site at most once, and only in its own script. -/
lemma countP_range_le (script : ScriptId) (site : Site) (n : Nat) :
    (List.range n).countP (fun i => (⟨script, i⟩ : Site) = site) ≤
      if script = site.script then 1 else 0 := by
  split
  · calc (List.range n).countP (fun i => (⟨script, i⟩ : Site) = site)
      _ ≤ (List.range n).count site.index := by
        refine List.countP_mono_left fun i _ e => ?_
        obtain rfl : (⟨script, i⟩ : Site) = site := by simpa using e
        simp
      _ ≤ 1 := List.nodup_iff_count_le_one.1 List.nodup_range site.index
  · rename_i other
    refine Nat.le_of_eq (List.countP_eq_zero.2 fun i _ e => other ?_)
    obtain rfl : (⟨script, i⟩ : Site) = site := by simpa using e
    rfl

/-- Each statement of a row uses up its own turn. -/
lemma accounts_row {script : ScriptId} {due guard} (all : List Nat)
    (settles : ∀ {site ending} {m : Machine}, m.interrupted = false →
      Settles site ending (.silent (guard site (fun _ => ending) m))) :
    RowInvariant host Task.OverBlock (Task.Accounts site) script due guard fun is trace ending =>
      ending.machine.Outside site → m.Outside site ∧
        trace.countP (Task.isAt site) + ending.machine.turns site +
            is.countP (fun i => ⟨script, i⟩ = site) ≤
          all.countP (fun i => ⟨script, i⟩ = site) + m.turns site +
            trace.countP (Task.returnsInto site) where
  settles := settles
  skips h outside := by
    obtain ⟨before, le⟩ := h outside
    rw [List.countP_cons] at le
    exact ⟨before, by omega⟩
  starts _ _ := trivial
  goes {i is trace m' inner ending ending'} h _ leads met next outside := by
    have left := next.quiet.outside outside
    obtain ⟨before, le⟩ := h (left.of_grown leads.outlines_grow)
    have inside : _ ≤ (if (⟨script, i⟩ : Site) = site then 1 else 0) + m'.turns site + _ := met left
    rw [List.countP_cons] at le
    rw [Machine.turns_eq next.quiet.outlines, List.countP_append, List.countP_append]
    simp only [Ending.machine, decide_eq_true_eq] at le
    exact ⟨before, by omega⟩
  interrupts h := h

/-- A row of statements has a turn for each of them. -/
lemma accounts_each {script : ScriptId} {due guard} {task : Task} {all : List Nat}
    (settles : ∀ {site ending} {m : Machine}, m.interrupted = false →
      Settles site ending (.silent (guard site (fun _ => ending) m)))
    (here : Task.isAt site (task, m) = false)
    (h : m.Outside site → all.countP (fun i => ⟨script, i⟩ = site) ≤ task.turns site) :
    Upholds host Task.OverBlock (Task.Accounts site) (Task.Accounts site (task, m))
      (.each script due guard all m) := by
  refine (accounts_row (m := m) all settles).upholds ?_ fun outside => ⟨outside, ?_⟩
  · intro is trace ending inv outside
    obtain ⟨before, le⟩ := inv outside
    have start := h before
    rw [List.countP_cons_of_neg (by simp [here]), List.countP_cons]
    dsimp only
    omega
  · simp only [List.countP_nil, Ending.machine]
    omega

/-- A task that starts one other task passes its turns on. -/
lemma Task.Accounts.pass {task task' : Task} {m' : Machine} {inner ending ending'}
    (met : Task.Accounts site (task', m') inner ending) (finishes : ending.Finishes ending')
    (le : (if Task.isAt site (task, m) then 1 else 0) + (task'.turns site + m'.turns site) ≤
      task.turns site + m.turns site + if Task.returnsInto site (task, m) then 1 else 0) :
    Task.Accounts site (task, m) ((task', m') :: inner) ending' := by
  intro outside
  have inside := met (finishes.quiet.outside outside)
  dsimp only at inside ⊢
  rw [Machine.turns_eq finishes.quiet.outlines, List.countP_cons (a := (task, m)),
    List.countP_cons (a := (task, m))]
  omega

/-- Every task keeps its accounts. -/
lemma accounts_upholds (c : Task × Machine) (proper : Task.Proper host c)
    (block : Task.OverBlock c) :
    Upholds host Task.OverBlock (Task.Accounts site) (Task.Accounts site c)
      (.ofTask host c.1 c.2) := by
  obtain ⟨task, m⟩ := c
  cases task with
  | statement here =>
    have begun : (if Task.isAt site (.statement here, m) then 1 else 0) =
        (Task.statement here).turns site := by
      simp [Task.isAt, Task.turns]
    -- what starts nothing carries out the statement itself, and only that
    have alone : ∀ {ending : Ending}, ending.machine.store.outlines = m.store.outlines →
        Task.Accounts site (.statement here, m) [] ending := by
      intro ending same _
      dsimp only
      rw [Machine.turns_eq same, List.countP_singleton, begun]
      exact Nat.le_add_right _ _
    refine .statement (fun _ => alone rfl) (fun quiet _ => alone quiet.outlines) ?_ ?_
    · exact fun read launches => launches.overBlock (Statement.readAt_inv read)
    · intro s task m' inner ending ending' read launches _ met finishes
      have le := launches.turns_le site read
      have same : m'.turns site = m.turns site := Machine.turns_eq launches.quiet.outlines
      refine met.pass finishes ?_
      dsimp only at le
      omega
  | block script bracket =>
    obtain ⟨shape, hb, kind⟩ := block
    -- no child of a block is outside all blocks, so the site has no turn here
    refine accounts_each guarded_settles rfl fun outside => Nat.le_of_eq (List.countP_eq_zero.2 ?_)
    intro i mem e
    obtain rfl : (⟨script, i⟩ : Site) = site := by simpa using e
    exact outside.not_child hb kind mem rfl
  | script script =>
    exact accounts_each walked_settles rfl fun _ => countP_range_le script site _
  | call f args =>
    have same : (m.bindArguments f args).turns site = m.turns site :=
      Machine.turns_eq (Machine.Quiet.bindArguments m f args).outlines
    refine .call (overBlock_call proper) fun _ met finishes => met.pass finishes ?_
    simp only [Task.isAt, Task.returnsInto, Task.turns, Bool.false_eq_true, if_false, Nat.zero_add]
    exact Nat.le_of_eq same
  | source name text =>
    refine .source ?_ (fun _ => trivial) ?_
    · exact fun _ => Nat.le_add_right _ _
    · intro id store m' inner ending ending' new loaded _ met finishes
      -- filling in leaves the turns alone, so the script has the turn that loading takes away
      have same : m'.turns site = Machine.turns site { m with store } := by
        rw [loaded]
        exact Machine.turns_eq (Machine.outlines_substituteAll _)
      refine met.pass finishes ?_
      simp only [Task.isAt, Task.returnsInto, Task.turns, Bool.false_eq_true, if_false,
        Nat.zero_add, same]
      exact Nat.le_of_eq (turns_loaded site new)

end

/-! ### The life of a machine -/

section
variable {m : Machine} {past : List (Task × Machine)}

/-- Over all runs, a statement outside all blocks is carried out once for its own script and once
for each `return` right before it. -/
lemma Chronicle.accounts (h : Chronicle past m) (site : Site) (outside : m.Outside site) :
    past.countP (Task.isAt site) + m.turns site ≤ 1 + past.countP (Task.returnsInto site) := by
  induction h with
  | start => exact Nat.le_refl 1
  | @run past m trace ending host name text told traced ih =>
    have proper := told.reachable.proper host name text
    have met := (Upholds.meets accounts_upholds proper trivial traced).1 outside
    have before := ih (outside.of_grown (traced.gives.leads proper).outlines_grow)
    rw [List.countP_append, List.countP_append]
    simp only [Task.turns] at met
    omega
  | interrupt interrupted _ ih => exact ih outside

/-- The statements that began at a site are the tasks that carried it out. -/
lemma Chronicle.countP_begun (h : Chronicle past m) (site : Site) :
    m.begun.countP (fun b => b.1 = site) = past.countP (Task.isAt site) := by
  rw [h.begun_eq, List.countP_filterMap]
  refine List.countP_congr fun c _ => ?_
  obtain ⟨task, m⟩ := c
  cases task <;> simp [Task.beginning?, Task.isAt]

end

/-- A statement outside all blocks is carried out at most once in the whole life of a machine, for
its own script; and then only by a `return` that stands right before it, once for each time that
this `return` is carried out. -/
theorem Reachable.turns_bounded {m : Machine} (h : Reachable m) :
    (∃ past, Chronicle past m) ∧
    ∀ past, Chronicle past m → ∀ site,
      Nodes.withinBlock (m.nodes site.script) site.index = false →
        m.begun.countP (fun b => b.1 = site) ≤ 1 + past.countP (Task.returnsInto site) := by
  refine ⟨h.chronicle, fun past told site outside => ?_⟩
  have accounts := told.accounts site outside
  rw [told.countP_begun site]
  omega

/-- A statement that was carried out twice stands behind a `return` that was carried out. -/
theorem turns_bounded_print :
    let host : Host := { loader := .ofList [], depthLimit := 2 }
    let m := (({} : Machine).runSource host ['a'] "@return @print \"x\"".toList).2
    m.begun.countP (fun b => b.1 = ⟨0, 1⟩) = 2 ∧
      ∃ past, Chronicle past m ∧ ∃ c ∈ past, Task.returnsInto ⟨0, 1⟩ c = true := by
  intro host m
  have twice : m.begun.countP (fun b => b.1 = ⟨0, 1⟩) = 2 := by decide +kernel
  obtain ⟨⟨past, told⟩, bounded⟩ := Reachable.turns_bounded (m := m) (.source host _ _ .start)
  have le := bounded past told ⟨0, 1⟩ (by decide +kernel)
  exact ⟨twice, past, told, List.countP_pos_iff.1 (by omega)⟩

/-- It is not so that a keyword outside all blocks is carried out at most once: one right behind a
`return` is carried out for the `return`, and then has its own turn. -/
theorem print_behind_return_twice :
    ¬ ∀ (m : Machine) (site : Site), Reachable m → m.keywordAt site = true →
      Nodes.withinBlock (m.nodes site.script) site.index = false →
        m.begun.countP (fun b => b.1 = site) ≤ 1 := by
  intro once
  let host : Host := { loader := .ofList [], depthLimit := 2 }
  let m := (({} : Machine).runSource host ['a'] "@return @print \"x\"".toList).2
  have twice : m.begun.countP (fun b => b.1 = ⟨0, 1⟩) = 2 := by decide +kernel
  have le := once m ⟨0, 1⟩ (.source host _ _ .start) (by decide +kernel) (by decide +kernel)
  omega

end Sigil
