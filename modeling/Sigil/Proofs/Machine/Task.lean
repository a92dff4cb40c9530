import Mathlib.Tactic.Common
import Sigil.Machine.Run
import Sigil.Proofs.Machine.Frame

/-!
# Tasks

The evaluator puts the meaning of a script together from its end. One can also describe it the way
it is thought of when a script is written: carrying out a statement, running a block, running a
script, calling a function and running a source are five tasks that start one another, wherever the
statements say so. `Course.ofTask` says what each task does in terms of the tasks that it starts,
and says nothing about how far this may go. `Gives` is what comes of it: it has a rule for a task
that is done and one for a task that waits for another, so a recursion that goes on for ever gives
nothing.

`Task.outcome` is what the evaluator computes for a task, and `rank` is how much a task can still
start: the number of levels that are left, and then the number of nodes that lie ahead.
-/

namespace Sigil

/-- The levels that are left in a machine. -/
def Machine.level (host : Host) (m : Machine) : Level :=
  .ofLeft host (host.depthLimit - m.depth)

/-- Carries out the statement at a site as the nodes and the levels left are now. -/
def Statement.eval (host : Host) (site : Site) : Action (Option Value) := fun m =>
  (Meaning.ofShapes host (m.level host) site.script site.index
    ((m.shapes site.script).drop site.index)).statement m

/-! ### Tasks and what they do -/

/-- The tasks that start one another. -/
inductive Task where
  /-- Carries out the statement at a site. -/
  | statement (site : Site)
  /-- Runs the statements written directly in a block, in order. -/
  | block (script : ScriptId) (bracket : Nat)
  /-- Runs the statements of a script outside all blocks, in order. -/
  | script (id : ScriptId)
  /-- Calls a function. -/
  | call (f : Function) (args : List Text)
  /-- Loads a source under a name and runs it. -/
  | source (name text : Text)

/-- How a task ends. -/
abbrev Ending := EStateM.Result Signal Machine (Option Value)

namespace Ending

/-- The ending with a change of the machine that it leaves. -/
def leaving (change : Machine → Machine) : Ending → Ending
  | .ok result m => .ok result (change m)
  | .error signal m => .error signal (change m)

/-- Goes on after a task that has not failed. -/
def andThen (next : Option Value → Action (Option Value)) : Ending → Ending
  | .ok result m => next result m
  | .error signal m => .error signal m

/-- The ending of a function, given that of its block. -/
def ofBody : Ending → Ending
  | .ok _ m => .ok none m
  | .error (.returned value) m => .ok (some value) m
  | .error (.failed e) m => .error (.failed e) m

/-- The ending of an activity that has no value. -/
def silent {α : Type} : EStateM.Result Signal Machine α → Ending
  | .ok _ m => .ok none m
  | .error signal m => .error signal m

end Ending

/-- A task under way: it is done, or it waits for the ending of another task. -/
inductive Course where
  | done (ending : Ending)
  | await (task : Task) (m : Machine) (rest : Ending → Course)

/-- Whether there is a keyword at a site. -/
def Machine.keywordAt (m : Machine) (site : Site) : Bool :=
  (m.nodes site.script)[site.index]?.any fun node => node.kind == .keyword

/-- Whether there is a keyword outside all blocks at a site. -/
def Machine.walkedAt (m : Machine) (site : Site) : Bool :=
  m.keywordAt site && !Nodes.withinBlock (m.nodes site.script) site.index

/-- Runs a statement outside all functions. -/
def Statement.walked (site : Site) (act : Action (Option Value)) : Action Unit :=
  (Meaning.walkStatement site act).toAction

namespace Course

/-- Runs the statements at some indices that are due, one after the other. -/
def each (script : ScriptId) (due : Machine → Site → Bool)
    (guard : Site → Action (Option Value) → Action Unit) : List Nat → Machine → Course
  | [], m => .done (.ok none m)
  | i :: rest, m =>
    if due m ⟨script, i⟩ then
      if m.interrupted then
        .done (.error (.failed .interrupted) m)
      else
        .await (.statement ⟨script, i⟩) m fun ending =>
          match guard ⟨script, i⟩ (fun _ => ending) m with
          | .ok _ m => each script due guard rest m
          | .error signal m => .done (.error signal m)
    else
      each script due guard rest m

/-- Starts a task one level deeper, if there is one. -/
def deeper (host : Host) (task : Task) (m : Machine)
    (next : Option Value → Action (Option Value)) : Course :=
  if m.depth < host.depthLimit then
    .await task { m with depth := m.depth + 1 } fun ending =>
      .done ((ending.leaving fun m => { m with depth := m.depth - 1 }).andThen next)
  else
    .done (.error (.failed (.tooDeep m.depth host.depthLimit)) m)

/-- Carries out a statement that is in order. -/
def perform (host : Host) (site : Site) : Statement → Machine → Course
  | .giveNext word, m =>
    .await (.statement ⟨site.script, site.index + 1⟩) m fun ending =>
      .done (ending.andThen (Statement.giveResult word))
  | .call f args out, m =>
    deeper host (.call f args) m fun result =>
      Statement.effect (·.assignResult site out result) result
  | .branch true body, m =>
    .await (.block site.script body) m fun ending =>
      .done (ending.andThen fun _ => pure (some (.bool true)))
  | .load name source, m =>
    deeper host (.source name source) m fun _ => pure none
  -- the others start no task, whatever they could start
  | statement, m => .done (statement.perform (.ofLeft host 0) .nil site m)

/-- What a task does. -/
def ofTask (host : Host) : Task → Machine → Course
  | .statement site, m =>
    let m := m.log (.began site m.store.current m.depth)
    match Statement.readAt host m site with
    | .ok statement => perform host site statement m
    | .error e => .done (.error (.failed e) m)
  | .block script bracket, m =>
    each script Machine.keywordAt Statement.guarded (Nodes.children (m.nodes script) bracket) m
  | .script id, m =>
    each id Machine.walkedAt Statement.walked (List.range (m.nodes id).length) m
  | .call f args, m =>
    let m := m.bindArguments f args
    .await (.block f.owner f.body) (m.setCurrent (some f.owner)) fun ending =>
      .done (ending.leaving (·.setCurrent m.store.current)).ofBody
  | .source name text, m =>
    match m.store.insert? name (Nodes.ofSource text) with
    | none => .done (.error (.failed (.duplicateScript name)) m)
    | some (id, store) =>
      let m := ({ m with store }.log (.loaded name)).substituteAll
      .await (.script id) (m.setCurrent (some id)) fun ending =>
        .done (ending.leaving (·.setCurrent m.store.current))

end Course

/-- What a task under way gives in the end. There is no rule for one that never ends. -/
inductive Gives (host : Host) : Course → Ending → Prop where
  | done {ending} :
    Gives host (.done ending) ending
  | await {task m rest ending ending'} :
    Gives host (.ofTask host task m) ending →
    Gives host (rest ending) ending' →
    Gives host (.await task m rest) ending'

/-- The tasks that a task under way starts, and the machines in which it starts them. -/
inductive Awaits (host : Host) : Course → Task × Machine → Prop where
  | now {task m rest} :
    Awaits host (.await task m rest) (task, m)
  | later {task m rest ending started} :
    Gives host (.ofTask host task m) ending →
    Awaits host (rest ending) started →
    Awaits host (.await task m rest) started

/-- A task in a machine starts another one. -/
def Starts (host : Host) (c c' : Task × Machine) : Prop :=
  Awaits host (.ofTask host c.1 c.2) c'

/-- The number of nodes that lie ahead of a task in its script. -/
def Task.ahead (m : Machine) : Task → Nat
  | .statement site => (m.nodes site.script).length - site.index
  | .block id bracket => (m.nodes id).length - bracket
  | .script id => (m.nodes id).length + 1
  | .call f _ => (m.nodes f.owner).length - f.body + 1
  | .source _ text => (Nodes.ofSource text).length + 2

/-- The levels that are left, and the nodes that lie ahead. -/
def rank (host : Host) (c : Task × Machine) : Nat × Nat :=
  (host.depthLimit - c.2.depth, c.1.ahead c.2)

/-- The ending that the evaluator computes for a task. -/
def Task.outcome (host : Host) : Task → Machine → Ending
  | .statement site, m => Statement.eval host site m
  | .block id bracket, m => .silent ((Meaning.ofScript host (m.level host) id m).block bracket m)
  | .script id, m => .silent ((Meaning.ofScript host (m.level host) id m).walk.toAction m)
  | .call f args, m => (Run.function host (m.level host) f args).toAction m
  | .source name text, m => .silent ((Run.source host (m.level host) name text).toAction m)

end Sigil
