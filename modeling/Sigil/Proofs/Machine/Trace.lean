import Mathlib.Tactic.Common
import Sigil.Proofs.Machine.Failure

/-!
# What happens in a run

`Traces` is the recursion of the tasks together with a list of all tasks that are started on the way
and the machines in which they are started, in the order in which they are. So "whenever a statement
is carried out" is said of a list.

What holds of all tasks of a run is proved like a property of recursive procedures. A task has a
precondition and a postcondition, and one shows for each kind of task that it `Upholds` them: it
starts other tasks only when their preconditions hold, and its own postcondition follows from
theirs. Then every task of a run meets its conditions (`Upholds.traces`). Blocks and scripts, which
start one statement after the other, have a rule of their own (`RowInvariant.upholds`), and
`perform_plan` says once what a statement can start.

The first use is to show that the trace tells the same story as the journal of the machine: the
statements that begin are those of the trace, in the same order (`Traces.begun_eq`).
-/

namespace Sigil

/-- The machine that an ending leaves. -/
def Ending.machine : Ending → Machine
  | .ok _ m => m
  | .error _ m => m

/-- What a task under way gives in the end, and all tasks that are started until then. -/
inductive Traces (host : Host) : Course → List (Task × Machine) → Ending → Prop where
  | done {ending} :
    Traces host (.done ending) [] ending
  | await {task m rest inner later ending ending'} :
    Traces host (.ofTask host task m) inner ending →
    Traces host (rest ending) later ending' →
    Traces host (.await task m rest) ((task, m) :: inner ++ later) ending'

section
variable {host : Host}

/-- What leaves a trace gives the same ending. -/
lemma Traces.gives {course trace ending} (h : Traces host course trace ending) :
    Gives host course ending := by
  induction h with
  | done => exact .done
  | await _ _ ih ih' => exact .await ih ih'

/-- A task under way has one trace. -/
lemma Traces.unique {course trace trace' ending ending'} (h : Traces host course trace ending)
    (h' : Traces host course trace' ending') : trace = trace' := by
  induction h generalizing trace' ending' with
  | done =>
    cases h'
    rfl
  | await first _ ih ih' =>
    cases h' with
    | await first' rest' =>
      cases first.gives.unique first'.gives
      rw [ih first', ih' rest']

/-- What gives an ending leaves a trace. -/
lemma Gives.traces {course ending} (h : Gives host course ending) :
    ∃ trace, Traces host course trace ending := by
  induction h with
  | done => exact ⟨[], .done⟩
  | await _ _ ih ih' =>
    obtain ⟨inner, first⟩ := ih
    obtain ⟨later, rest⟩ := ih'
    exact ⟨_, .await first rest⟩

/-- The machine that an action leaves is the one after it. -/
lemma machine_eq_after (act : Action (Option Value)) (m : Machine) :
    Ending.machine (act m) = after act m := by
  unfold after
  cases act m <;> rfl

/-- Without its value, an action leaves the same machine. -/
lemma machine_silent {α : Type} (act : Action α) (m : Machine) :
    (Ending.silent (act m)).machine = after act m := by
  unfold after
  cases act m <;> rfl

/-- A run leaves the same machine as an action. -/
lemma after_toAction {α : Type} (run : Run α) (m : Machine) :
    after run.toAction m = after run m := by
  unfold after Run.toAction
  cases run m <;> rfl

/-- A task does nothing but what running can do. -/
lemma Task.Proper.outcome_leads {c : Task × Machine} (proper : Task.Proper host c) :
    Leads host c.2 (c.1.outcome host c.2).machine := by
  obtain ⟨task, m⟩ := c
  obtain ⟨_, hm, known⟩ := proper
  have left : m.depth + (host.depthLimit - m.depth) = host.depthLimit := Nat.add_sub_cancel' hm
  have level := ofLeft_conducts host (host.depthLimit - m.depth)
  cases task with
  | statement site =>
    rw [Task.outcome, machine_eq_after]
    exact Statement.eval_conducts (host.depthLimit - m.depth) m left
  | block id bracket =>
    rw [Task.outcome, machine_silent]
    exact (ofScript_conducts level id m).block bracket m left
  | script id =>
    rw [Task.outcome, machine_silent, after_toAction]
    exact (ofScript_conducts level id m).walk m left
  | call f args =>
    obtain ⟨name, hf⟩ := known
    rw [Task.outcome, machine_eq_after, after_toAction]
    exact function_leads level hf left args
  | source name text =>
    rw [Task.outcome, machine_silent, after_toAction]
    exact source_conducts level name text m left

/-- What a task gives is what running can lead to. -/
lemma Gives.leads {task : Task} {m : Machine} {ending} (proper : Task.Proper host (task, m))
    (h : Gives host (.ofTask host task m) ending) : Leads host m ending.machine := by
  cases h.unique (gives_outcome proper)
  exact proper.outcome_leads

end

/-! ### Conditions that tasks uphold -/

/-- A task under way starts tasks only when `pre` holds of them; and if they meet `post`, its own
tasks and its ending are `good`. -/
inductive Upholds (host : Host) (pre : Task × Machine → Prop)
    (post : Task × Machine → List (Task × Machine) → Ending → Prop) :
    (List (Task × Machine) → Ending → Prop) → Course → Prop where
  | done {good : _ → _ → Prop} {ending} :
    good [] ending →
    Upholds host pre post good (.done ending)
  | await {good : _ → _ → Prop} {task m rest} :
    (Task.Proper host (task, m) → pre (task, m)) →
    (∀ inner ending, Task.Proper host (task, m) → Leads host m ending.machine →
      post (task, m) inner ending →
      Upholds host pre post (fun later => good ((task, m) :: inner ++ later)) (rest ending)) →
    Upholds host pre post good (.await task m rest)

namespace Upholds

variable {host : Host} {pre : Task × Machine → Prop}
  {post : Task × Machine → List (Task × Machine) → Ending → Prop}
  {good : List (Task × Machine) → Ending → Prop} {course : Course}

/-- A task that waits for one other and then finishes need only look at that one. -/
lemma await_done {task : Task} {m : Machine} {finish : Ending → Ending}
    (hp : Task.Proper host (task, m) → pre (task, m))
    (hg : ∀ inner ending, Task.Proper host (task, m) → Leads host m ending.machine →
      post (task, m) inner ending → good ((task, m) :: inner) (finish ending)) :
    Upholds host pre post good (.await task m fun ending => .done (finish ending)) := by
  refine .await hp fun inner ending proper leads met => .done ?_
  rw [List.append_nil]
  exact hg inner ending proper leads met

/-- If all tasks uphold the conditions, they hold of all tasks of a run. -/
lemma traces (body : ∀ c, Task.Proper host c → pre c →
      Upholds host pre post (post c) (.ofTask host c.1 c.2)) {trace ending}
    (h : Traces host course trace ending) (up : Upholds host pre post good course)
    (awaits : ∀ c, Awaits host course c → Task.Proper host c) :
    good trace ending ∧ ∀ c ∈ trace, Task.Proper host c ∧ pre c := by
  induction h generalizing good with
  | done =>
    cases up with
    | done hg => exact ⟨hg, nofun⟩
  | @await task m rest inner later ending ending' first _ ih ih' =>
    cases up with
    | await hp next =>
      have proper := awaits _ .now
      obtain ⟨met, innerOk⟩ := ih (body _ proper (hp proper)) fun c starts =>
        (Starts.below (c := (task, m)) starts proper).1
      obtain ⟨hg, laterOk⟩ := ih' (next inner ending proper (first.gives.leads proper) met)
        fun c awaited => awaits c (.later first.gives awaited)
      refine ⟨hg, fun c mem => ?_⟩
      rcases List.mem_append.1 mem with mem | mem
      · rcases List.mem_cons.1 mem with rfl | mem
        · exact ⟨proper, hp proper⟩
        · exact innerOk c mem
      · exact laterOk c mem

/-- A task that is started in good order meets its conditions. -/
lemma meets (body : ∀ c, Task.Proper host c → pre c →
      Upholds host pre post (post c) (.ofTask host c.1 c.2)) {task : Task} {m : Machine}
    (proper : Task.Proper host (task, m)) (hp : pre (task, m)) {trace ending}
    (h : Traces host (.ofTask host task m) trace ending) :
    post (task, m) trace ending ∧ ∀ c ∈ trace, Task.Proper host c ∧ pre c :=
  traces body h (body _ proper hp) fun _ starts =>
    (Starts.below (c := (task, m)) starts proper).1

end Upholds

/-! ### Statements in a row -/

/-- What becomes of a block or script by the ending of one of its statements: it goes on with the
machine that the statement has left, perhaps after a report, or it ends in the same way. -/
inductive Settles (site : Site) (ending : Ending) : Ending → Prop where
  | on :
    Settles site ending (.ok none ending.machine)
  | reported (e : Error) :
    Settles site ending (.ok none (ending.machine.report site e))
  | ended {signal m} :
    ending = .error signal m →
    Settles site ending (.error signal m)

section
variable {site : Site} {ending : Ending} {m : Machine}

/-- A statement of a block settles as the block guards it. -/
lemma guarded_settles (hi : m.interrupted = false) :
    Settles site ending (.silent (Statement.guarded site (fun _ => ending) m)) := by
  simp only [Statement.guarded, hi, Bool.false_eq_true, if_false]
  cases ending with
  | ok result m' => exact .on
  | error signal m' =>
    cases signal with
    | returned value => exact .ended rfl
    | failed e =>
      by_cases hr : e.isRecoverable = true
      · simp only [hr, if_true]
        exact .reported e
      · simp only [hr]
        exact .ended rfl

/-- A statement of a script settles, and a `return` is reported. -/
lemma walked_settles (hi : m.interrupted = false) :
    Settles site ending (.silent (Statement.walked site (fun _ => ending) m)) := by
  have settles : Settles site ending _ := guarded_settles hi
  simp only [Statement.walked, Run.toAction, Meaning.walkStatement]
  cases e : Statement.guarded site (fun _ => ending) m with
  | ok _ m' =>
    rw [e] at settles
    exact settles
  | error signal m' =>
    rw [e] at settles
    cases signal with
    | returned value =>
      cases settles with
      | ended h =>
        have left : m' = ending.machine := by
          rw [h]
          rfl
        exact left ▸ .reported .returnOutsideFunction
    | failed error => exact settles

end

/-- What statements in a row pass on from one to the next. The condition `inv` is about the indices
that are left, the tasks so far, and the ending if the row ended there. -/
structure RowInvariant (host : Host) (pre : Task × Machine → Prop)
    (post : Task × Machine → List (Task × Machine) → Ending → Prop) (script : ScriptId)
    (due : Machine → Site → Bool) (guard : Site → Action (Option Value) → Action Unit)
    (inv : List Nat → List (Task × Machine) → Ending → Prop) : Prop where
  settles : ∀ {site ending} {m : Machine}, m.interrupted = false →
    Settles site ending (.silent (guard site (fun _ => ending) m))
  skips : ∀ {i is trace m}, inv (i :: is) trace (.ok none m) → inv is trace (.ok none m)
  starts : ∀ {i is trace m}, inv (i :: is) trace (.ok none m) → due m ⟨script, i⟩ = true →
    pre (.statement ⟨script, i⟩, m)
  goes : ∀ {i is trace m inner ending ending'}, inv (i :: is) trace (.ok none m) →
    due m ⟨script, i⟩ = true → Leads host m ending.machine →
    post (.statement ⟨script, i⟩, m) inner ending → Settles ⟨script, i⟩ ending ending' →
    inv is (trace ++ (.statement ⟨script, i⟩, m) :: inner) ending'
  interrupts : ∀ {is trace m}, inv is trace (.ok none m) →
    inv is trace (.error (.failed .interrupted) m)

section
variable {host : Host} {pre : Task × Machine → Prop}
  {post : Task × Machine → List (Task × Machine) → Ending → Prop} {script : ScriptId} {due guard}
  {inv : List Nat → List (Task × Machine) → Ending → Prop}
  {good : List (Task × Machine) → Ending → Prop}

/-- A row upholds what it passes on, also from the middle. -/
lemma RowInvariant.upholds_from (row : RowInvariant host pre post script due guard inv)
    (ends : ∀ {is trace ending}, inv is trace ending → good trace ending) {is : List Nat}
    {trace : List (Task × Machine)} {m : Machine} (h : inv is trace (.ok none m)) :
    Upholds host pre post (fun later => good (trace ++ later))
      (.each script due guard is m) := by
  induction is generalizing trace m with
  | nil =>
    refine .done ?_
    rw [List.append_nil]
    exact ends h
  | cons i is ih =>
    unfold Course.each
    by_cases hd : due m ⟨script, i⟩ = true
    · rw [if_pos hd]
      by_cases hi : m.interrupted = true
      · rw [if_pos hi]
        refine .done ?_
        rw [List.append_nil]
        exact ends (row.interrupts h)
      · rw [if_neg hi]
        refine .await (fun _ => row.starts h hd) fun inner ending _ leads met => ?_
        -- the guard decides whether the row goes on
        have next : Settles ⟨script, i⟩ ending _ := row.settles (by simpa using hi)
        cases e : guard ⟨script, i⟩ (fun _ => ending) m with
        | ok _ m' =>
          rw [e] at next
          have passed := row.goes h hd leads met next
          simpa using ih passed
        | error signal m' =>
          rw [e] at next
          refine .done ?_
          rw [List.append_nil]
          exact ends (row.goes h hd leads met next)
    · rw [if_neg hd]
      exact ih (row.skips h)

/-- Statements in a row uphold what they pass on. -/
lemma RowInvariant.upholds (row : RowInvariant host pre post script due guard inv)
    (ends : ∀ {is trace ending}, inv is trace ending → good trace ending) {is : List Nat}
    {m : Machine} (h : inv is [] (.ok none m)) :
    Upholds host pre post good (.each script due guard is m) :=
  row.upholds_from ends h

end

/-! ### Statements that began -/

/-- The site of a statement that began, the script that was current and the depth. -/
def Event.beginning? : Event → Option (Site × Option ScriptId × Nat)
  | .began site current depth => some (site, current, depth)
  | _ => none

/-- The statements that began, in order. -/
def Machine.begun (m : Machine) : List (Site × Option ScriptId × Nat) :=
  m.journal.reverse.filterMap Event.beginning?

/-- A task as the beginning of a statement. -/
def Task.beginning? (c : Task × Machine) : Option (Site × Option ScriptId × Nat) :=
  match c.1 with
  | .statement site => some (site, c.2.store.current, c.2.depth)
  | _ => none

/-- Between the machines no statement began and no script was loaded. -/
structure Machine.Quiet (m m' : Machine) : Prop where
  begun : m'.begun = m.begun
  outlines : m'.store.outlines = m.store.outlines

namespace Machine.Quiet

variable {a b c m : Machine}

/-- Where nothing happens it is quiet. -/
lemma refl (m : Machine) : m.Quiet m :=
  ⟨rfl, rfl⟩

/-- It is quiet for as long as it is quiet from machine to machine. -/
lemma trans (h : a.Quiet b) (h' : b.Quiet c) : a.Quiet c :=
  ⟨h'.begun.trans h.begun, h'.outlines.trans h.outlines⟩

/-- It is quiet while the journal and the scripts stay. -/
lemma of_frame (frame : b.frame = a.frame) (outlines : b.store.outlines = a.store.outlines) :
    a.Quiet b := by
  have journal : b.journal = a.journal := congrArg (·.2.2.2) frame
  exact ⟨by simp only [Machine.begun, journal], outlines⟩

/-- An event that is not the beginning of a statement is quiet. -/
lemma log (m : Machine) (event : Event) (h : event.beginning? = none) : m.Quiet (m.log event) :=
  ⟨by simp [Machine.begun, Machine.log, h], rfl⟩

/-- A report is quiet. -/
lemma report (m : Machine) (site : Site) (e : Error) : m.Quiet (m.report site e) :=
  log m _ rfl

/-- A binding is quiet. -/
lemma bind (m : Machine) (name text : Text) (scope : Scope) : m.Quiet (m.bind name text scope) :=
  of_frame (m.frame_bind name text scope) (m.outlines_bind name text scope)

/-- The binding of arguments is quiet. -/
lemma bindArguments (m : Machine) (f : Function) (args : List Text) :
    m.Quiet (m.bindArguments f args) := by
  unfold Machine.bindArguments
  induction f.params.zip args generalizing m with
  | nil => exact refl m
  | cons pair pairs ih => exact (bind m _ _ _).trans (ih _)

/-- An assignment is quiet. -/
lemma assign (m : Machine) (site : Site) (name text : Text) (p : Propagation) :
    m.Quiet (m.assign site name text p) :=
  of_frame (m.frame_assign site name text p) (m.outlines_assign site name text p)

/-- The assignment of a result is quiet. -/
lemma assignResult (m : Machine) (site : Site) (out : Option Text) (result : Option Value) :
    m.Quiet (m.assignResult site out result) := by
  cases out with
  | none => exact refl m
  | some name =>
    cases result with
    | none => exact refl m
    | some value => exact assign m site name value.toText .follow

/-- The call of native code is quiet. -/
lemma logNative (m : Machine) (source : Text) (reply : Reply) :
    m.Quiet (m.logNative source reply) := by
  have called := log m (.called source) rfl
  unfold Machine.logNative
  dsimp only
  split
  · refine called.trans (trans ?_ (log _ .interrupted rfl))
    exact ⟨rfl, rfl⟩
  · exact called

end Machine.Quiet

/-! ### What a statement can start -/

/-- What a statement at a site starts, and in which machine. -/
inductive Statement.Launches (host : Host) (m : Machine) (site : Site) :
    Statement → Task → Machine → Prop where
  | giveNext (word : Text) :
    Launches host m site (.giveNext word) (.statement site.next) m
  | call (f : Function) (args : List Text) (out : Option Text) :
    m.depth < host.depthLimit →
    Launches host m site (.call f args out) (.call f args) { m with depth := m.depth + 1 }
  | branch (body : Nat) :
    Launches host m site (.branch true body) (.block site.script body) m
  | load (name source : Text) :
    m.depth < host.depthLimit →
    Launches host m site (.load name source) (.source name source) { m with depth := m.depth + 1 }

/-- On the way to what a statement starts it is quiet. -/
lemma Statement.Launches.quiet {host m site s task m'}
    (h : Statement.Launches host m site s task m') : m.Quiet m' := by
  cases h <;> exact ⟨rfl, rfl⟩

/-- Whether a task ended because it would have gone too deep. -/
def Ending.TooDeep (depth limit : Nat) (ending : Ending) : Prop :=
  ∃ m, ending = .error (.failed (.tooDeep depth limit)) m

/-- How a statement ends by the ending of what it started: nothing but variables changes any more,
and it does not go too deep by itself. -/
structure Ending.Finishes (ending ending' : Ending) : Prop where
  quiet : ending.machine.Quiet ending'.machine
  tooDeep : ∀ {depth limit}, ending'.TooDeep depth limit → ending.TooDeep depth limit

namespace Ending.Finishes

/-- An ending finishes as itself. -/
lemma refl (ending : Ending) : ending.Finishes ending :=
  ⟨.refl _, id⟩

/-- What finishes twice finishes. -/
lemma trans {a b c : Ending} (h : a.Finishes b) (h' : b.Finishes c) : a.Finishes c :=
  ⟨h.quiet.trans h'.quiet, fun deep => h.tooDeep (h'.tooDeep deep)⟩

/-- A quiet change of the machine only finishes. -/
lemma leaving (ending : Ending) {change : Machine → Machine}
    (h : ∀ m : Machine, m.Quiet (change m)) :
    ending.Finishes (ending.leaving change) := by
  cases ending with
  | ok result m => exact ⟨h m, nofun⟩
  | error signal m =>
    refine ⟨h m, fun ⟨_, e⟩ => ?_⟩
    cases e
    exact ⟨m, rfl⟩

/-- A quiet action after a task only finishes. -/
lemma andThen (ending : Ending) {next : Option Value → Action (Option Value)}
    (h : ∀ result (m : Machine), m.Quiet (Ending.machine (next result m)))
    (deep : ∀ {result m depth limit}, ¬ Ending.TooDeep depth limit (next result m)) :
    ending.Finishes (ending.andThen next) := by
  cases ending with
  | ok result m => exact ⟨h result m, fun d => absurd d deep⟩
  | error signal m => exact refl _

/-- A call only finishes when it takes the value out of its body. -/
lemma ofBody (ending : Ending) : ending.Finishes ending.ofBody := by
  cases ending with
  | ok result m => exact ⟨.refl m, nofun⟩
  | error signal m =>
    cases signal with
    | returned value => exact ⟨.refl m, nofun⟩
    | failed e => exact refl _

end Ending.Finishes

/-- A statement starts nothing, and then no statement begins; or it starts one task, and then only
finishes. It goes too deep by itself only at the last level. -/
inductive Statement.Plan (host : Host) (m : Machine) (site : Site) (s : Statement) :
    Course → Prop where
  | done {ending : Ending} :
    m.Quiet ending.machine →
    (∀ depth limit, ending.TooDeep depth limit →
      depth = m.depth ∧ limit = host.depthLimit ∧ host.depthLimit ≤ m.depth) →
    Plan host m site s (.done ending)
  | await {task m'} {finish : Ending → Ending} :
    s.Launches host m site task m' →
    (∀ ending : Ending, ending.Finishes (finish ending)) →
    Plan host m site s (.await task m' fun ending => .done (finish ending))

/-! ### One level deeper -/

section
variable {host : Host} {m m' : Machine} {task : Task} {signal : Signal}

/-- What only waits for a task ends as it makes of the ending of the task. -/
lemma Gives.await_done_inv {finish : Ending → Ending} {ending : Ending}
    (h : Gives host (.await task m fun ending => .done (finish ending)) ending) :
    ∃ inner, Gives host (.ofTask host task m) inner ∧ ending = finish inner := by
  cases h with
  | await first rest =>
    cases rest
    exact ⟨_, first, rfl⟩

/-- Where a task is followed by something else, the signal comes from the task or, if it went well,
from what follows. -/
lemma Gives.andThen_error {next : Option Value → Action (Option Value)}
    (h : Gives host (.await task m fun ending => .done (ending.andThen next)) (.error signal m')) :
    Gives host (.ofTask host task m) (.error signal m') ∨
      ∃ result m₁, Gives host (.ofTask host task m) (.ok result m₁) ∧
        next result m₁ = .error signal m' := by
  obtain ⟨inner, gives, ends⟩ := h.await_done_inv
  cases inner with
  | ok result m₁ => exact .inr ⟨result, m₁, gives, ends.symm⟩
  | error passed m₁ =>
    cases ends
    exact .inl gives

/-- What is started one level deeper is cut short because there is no such level, or by the signal
of the task that was started there. -/
lemma Gives.deeper_error {next : Option Value → Action (Option Value)}
    (h : Gives host (.deeper host task m next) (.error signal m'))
    (goes : ∀ result m, ∃ result' m', next result m = .ok result' m') :
    (∃ depth limit, signal = .failed (.tooDeep depth limit)) ∨
    m.depth < host.depthLimit ∧ ∃ m₂,
      Awaits host (.deeper host task m next) (task, { m with depth := m.depth + 1 }) ∧
      Gives host (.ofTask host task { m with depth := m.depth + 1 }) (.error signal m₂) := by
  unfold Course.deeper at h ⊢
  by_cases lt : m.depth < host.depthLimit
  · rw [if_pos lt] at h ⊢
    obtain ⟨inner, gives, ends⟩ := h.await_done_inv
    cases inner with
    | ok result m₁ =>
      obtain ⟨_, _, e⟩ := goes result { m₁ with depth := m₁.depth - 1 }
      cases ends.trans e
    | error passed m₁ =>
      cases ends
      exact .inr ⟨lt, m₁, .now, gives⟩
  · rw [if_neg lt] at h
    cases h
    exact .inl ⟨_, _, rfl⟩

end

/-- What is started one level deeper is a plan, if what follows it only finishes. -/
lemma deeper_plan {host : Host} {m : Machine} {site : Site} {s : Statement} {task : Task}
    {next : Option Value → Action (Option Value)}
    (launches : m.depth < host.depthLimit →
      s.Launches host m site task { m with depth := m.depth + 1 })
    (quiet : ∀ result (m : Machine), m.Quiet (Ending.machine (next result m)))
    (deep : ∀ {result m depth limit}, ¬ Ending.TooDeep depth limit (next result m)) :
    s.Plan host m site (.deeper host task m next) := by
  unfold Course.deeper
  by_cases hm : m.depth < host.depthLimit
  · rw [if_pos hm]
    refine .await (launches hm) fun ending => ?_
    refine .trans (.leaving ending fun m => ?_) (.andThen _ quiet deep)
    exact ⟨rfl, rfl⟩
  · rw [if_neg hm]
    refine .done (.refl m) fun depth limit ⟨_, h⟩ => ?_
    cases h
    exact ⟨rfl, rfl, Nat.le_of_not_lt hm⟩

/-- What each statement starts. -/
lemma perform_plan (host : Host) (site : Site) (s : Statement) (m : Machine) :
    s.Plan host m site (.perform host site s m) := by
  cases s with
  | giveNext word =>
    refine .await (.giveNext word) fun ending => .andThen ending ?_ ?_
    · intro result m
      cases result <;> exact .refl m
    · intro result m depth limit ⟨_, h⟩
      cases result <;> cases h
  | call f args out =>
    refine deeper_plan (.call f args out) ?_ nofun
    exact fun result m => .assignResult m site out result
  | branch holds body =>
    cases holds with
    | false => exact .done (.refl m) nofun
    | true => exact .await (.branch body) fun ending => .andThen ending (fun _ m => .refl m) nofun
  | load name source => exact deeper_plan (.load name source) (fun _ m => .refl m) nofun
  | nothing => exact .done (.refl m) nofun
  | print line => exact .done (.log m _ rfl) nofun
  | declare name text => exact .done (.bind m name text _) nofun
  | define f => exact .done ⟨rfl, rfl⟩ nofun
  | give value => exact .done (.refl m) nofun
  | compare holds => exact .done (.refl m) nofun
  | edit address text =>
    refine .done (.of_frame (m.frame_update address text .follow) ?_) nofun
    exact ((m.update address text .follow).outlines_substituteAll).trans
      (m.outlines_update address text .follow)
  | read out text => exact .done (.assign m site out text .overwrite) nofun
  | exportAll => exact .done ⟨rfl, m.outlines_exportAll site⟩ nofun
  | native code source out =>
    have called := Machine.Quiet.logNative m source (code.invoke m.nativeSources source)
    simp only [Course.perform, Statement.perform, Statement.performNative]
    cases e : (code.invoke m.nativeSources source).result with
    | error reason =>
      refine .done called ?_
      rintro depth limit ⟨_, e⟩
      cases e
    | ok text =>
      refine .done (called.trans (.assignResult _ site out _)) ?_
      rintro depth limit ⟨_, e⟩
      cases e

/-! ### Rules for the kinds of tasks -/

section
variable {host : Host} {pre : Task × Machine → Prop}
  {post : Task × Machine → List (Task × Machine) → Ending → Prop}
  {good : List (Task × Machine) → Ending → Prop} {m : Machine}

/-- A statement that can be read is performed. -/
lemma Course.ofTask_of_read {site : Site} {s : Statement}
    (read : Statement.readAt host (m.beginning site) site = .ok s) :
    Course.ofTask host (.statement site) m = .perform host site s (m.beginning site) := by
  rw [Machine.beginning] at read
  rw [Course.ofTask, read, Machine.beginning]

/-- A statement that cannot be read fails after it has begun. -/
lemma Course.ofTask_of_unread {site : Site} {e : Error}
    (unread : Statement.readAt host (m.beginning site) site = .error e) :
    Course.ofTask host (.statement site) m = .done (.error (.failed e) (m.beginning site)) := by
  rw [Machine.beginning] at unread
  rw [Course.ofTask, unread, Machine.beginning]

/-- A statement cannot be read, or it starts nothing, or it starts one task and finishes. -/
lemma Upholds.statement {site : Site}
    (unread : ∀ {e}, Statement.readAt host (m.beginning site) site = .error e →
      good [] (.error (.failed e) (m.beginning site)))
    (alone : ∀ {ending : Ending}, (m.beginning site).Quiet ending.machine →
      (∀ depth limit, ending.TooDeep depth limit →
        depth = m.depth ∧ limit = host.depthLimit ∧ host.depthLimit ≤ m.depth) → good [] ending)
    (starts : ∀ {s task m'}, Statement.readAt host (m.beginning site) site = .ok s →
      s.Launches host (m.beginning site) site task m' → pre (task, m'))
    (finishes : ∀ {s task m' inner ending ending'},
      Statement.readAt host (m.beginning site) site = .ok s →
      s.Launches host (m.beginning site) site task m' → Leads host m' ending.machine →
      post (task, m') inner ending → ending.Finishes ending' →
      good ((task, m') :: inner) ending') :
    Upholds host pre post good (.ofTask host (.statement site) m) := by
  cases read : Statement.readAt host (m.beginning site) site with
  | error e =>
    rw [Course.ofTask_of_unread read]
    exact .done (unread read)
  | ok s =>
    rw [Course.ofTask_of_read read]
    have plan := perform_plan host site s (m.beginning site)
    generalize Course.perform host site s (m.beginning site) = course at plan
    cases plan with
    | done quiet deep => exact .done (alone quiet deep)
    | await launches finish =>
      refine .await_done (fun _ => starts read launches) fun inner ending _ leads met => ?_
      exact finishes read launches leads met (finish ending)

/-- A call binds its arguments and starts the block of the function. -/
lemma Upholds.call {f : Function} {args : List Text}
    (starts : pre (.block f.owner f.body, (m.bindArguments f args).setCurrent (some f.owner)))
    (finishes : ∀ {inner ending ending'},
      Leads host ((m.bindArguments f args).setCurrent (some f.owner)) ending.machine →
      post (.block f.owner f.body, (m.bindArguments f args).setCurrent (some f.owner)) inner
        ending →
      ending.Finishes ending' →
      good ((.block f.owner f.body, (m.bindArguments f args).setCurrent (some f.owner)) :: inner)
        ending') :
    Upholds host pre post good (.ofTask host (.call f args) m) := by
  refine .await_done (fun _ => starts) fun inner ending _ leads met => finishes leads met ?_
  refine .trans (.leaving ending fun m => ?_) (.ofBody _)
  exact ⟨rfl, rfl⟩

/-- A source whose name is taken ends at once; any other one is loaded and starts its script. -/
lemma Upholds.source {name text : Text}
    (taken : good [] (.error (.failed (.duplicateScript name)) m))
    (starts : ∀ {id store}, m.store.insert? name (Nodes.ofSource text) = some (id, store) →
      pre (.script id, ({ m with store }.log (.loaded name)).substituteAll.setCurrent (some id)))
    (finishes : ∀ {id store m' inner ending ending'},
      m.store.insert? name (Nodes.ofSource text) = some (id, store) →
      m' = ({ m with store }.log (.loaded name)).substituteAll.setCurrent (some id) →
      Leads host m' ending.machine → post (.script id, m') inner ending →
      ending.Finishes ending' → good ((.script id, m') :: inner) ending') :
    Upholds host pre post good (.ofTask host (.source name text) m) := by
  simp only [Course.ofTask]
  cases new : m.store.insert? name (Nodes.ofSource text) with
  | none => exact .done taken
  | some added =>
    obtain ⟨id, store⟩ := added
    refine .await_done (fun _ => starts new) fun inner ending _ leads met => ?_
    refine finishes new rfl leads met (.leaving ending fun m => ?_)
    exact ⟨rfl, rfl⟩

end

/-! ### The trace and the journal -/

section
variable {host : Host} {m : Machine}

/-- The statements that began in a task are those that it started. -/
def Task.Journaled (c : Task × Machine) (trace : List (Task × Machine)) (ending : Ending) : Prop :=
  ending.machine.begun = c.2.begun ++ (c :: trace).filterMap Task.beginning?

/-- The beginning of a statement is added to those that began. -/
lemma Machine.begun_beginning (m : Machine) (site : Site) :
    (m.beginning site).begun = m.begun ++ [(site, m.store.current, m.depth)] := by
  simp [begun, beginning, log, Event.beginning?]

/-- It is quiet when a row goes on. -/
lemma Settles.quiet {site ending ending'} (h : Settles site ending ending') :
    ending.machine.Quiet ending'.machine := by
  cases h with
  | on => exact .refl _
  | reported e => exact .report _ site e
  | ended e =>
    rw [e]
    exact .refl _

/-- The statements of a row are those that were started in it. -/
lemma journaled_row {script : ScriptId} {due guard}
    (settles : ∀ {site ending} {m : Machine}, m.interrupted = false →
      Settles site ending (.silent (guard site (fun _ => ending) m))) :
    RowInvariant host (fun _ => True) Task.Journaled script due guard fun _ trace ending =>
      ending.machine.begun = m.begun ++ trace.filterMap Task.beginning? where
  settles := settles
  skips := id
  starts _ _ := trivial
  goes {i is trace m' inner ending ending'} h _ _ met next := by
    have before : m'.begun = m.begun ++ trace.filterMap Task.beginning? := h
    have inside : ending.machine.begun = m'.begun ++ _ := met
    rw [next.quiet.begun, inside, before, List.append_assoc, ← List.filterMap_append]
  interrupts := id

/-- Every task journals the statements that it starts. -/
lemma journaled_upholds (c : Task × Machine) :
    Upholds host (fun _ => True) Task.Journaled (Task.Journaled c) (.ofTask host c.1 c.2) := by
  obtain ⟨task, m⟩ := c
  cases task with
  | statement site =>
    have begun := m.begun_beginning site
    refine .statement (fun _ => begun) (fun quiet _ => quiet.begun.trans begun)
      (fun _ _ => trivial) ?_
    -- its own beginning comes first, then what began in the task that it started
    intro s task m' inner ending ending' _ launches _ met finishes
    have inside : ending.machine.begun = m'.begun ++ _ := met
    show ending'.machine.begun = m.begun ++ _
    rw [finishes.quiet.begun, inside, launches.quiet.begun, begun, List.append_assoc]
    rfl
  | block script bracket =>
    exact (journaled_row guarded_settles).upholds id (List.append_nil m.begun).symm
  | script script =>
    exact (journaled_row walked_settles).upholds id (List.append_nil m.begun).symm
  | call f args =>
    refine .call trivial fun {inner ending ending'} _ met finishes => ?_
    have inside : ending.machine.begun = (m.bindArguments f args).begun ++ _ := met
    show ending'.machine.begun = m.begun ++ _
    rw [finishes.quiet.begun, inside, (Machine.Quiet.bindArguments m f args).begun]
    rfl
  | source name text =>
    refine .source (List.append_nil m.begun).symm (fun _ => trivial) ?_
    intro id store m' inner ending ending' new loaded _ met finishes
    have inside : ending.machine.begun = m'.begun ++ _ := met
    have quiet : m'.begun = m.begun := by
      rw [loaded]
      simp [Machine.begun, Machine.setCurrent, Machine.substituteAll, Machine.log, Event.beginning?]
    show ending'.machine.begun = m.begun ++ _
    rw [finishes.quiet.begun, inside, quiet]
    rfl

/-- The journal of a machine tells which statements were started. -/
lemma Traces.begun_eq {task : Task} {trace ending} (proper : Task.Proper host (task, m))
    (h : Traces host (.ofTask host task m) trace ending) :
    ending.machine.begun = m.begun ++ ((task, m) :: trace).filterMap Task.beginning? :=
  (Upholds.meets (fun c _ _ => journaled_upholds c) proper trivial h).1

end

/-! ### The life of a machine -/

/-- Runs by the host, one after the other: all tasks that were started in them, and the machine that
they leave. Each run may have a host of its own. -/
inductive Chronicle : List (Task × Machine) → Machine → Prop where
  | start :
    Chronicle [] {}
  | run {past m trace ending} (host : Host) (name text : Text) :
    Chronicle past m →
    Traces host (.ofTask host (.source name text) m) trace ending →
    Chronicle (past ++ (.source name text, m) :: trace) ending.machine
  | interrupt {past m} (interrupted : Bool) :
    Chronicle past m →
    Chronicle past (m.setInterrupted interrupted)

section
variable {host : Host} {m : Machine} {name text : Text}

/-- The machine of a run for the host is the one that it leaves. -/
lemma Ending.machine_ofRun {α : Type} (run : Except Error α × Machine) :
    (Ending.ofRun run).machine = run.2 := by
  obtain ⟨result, m⟩ := run
  cases result <;> rfl

/-- A machine between runs is fit to run a source. -/
lemma Reachable.proper (h : Reachable m) (host : Host) (name text : Text) :
    Task.Proper host (.source name text, m) :=
  ⟨h.visited, h.depth_eq.symm ▸ Nat.zero_le _, trivial⟩

/-- A run of a source leaves a trace. -/
lemma Reachable.traces (h : Reachable m) (host : Host) (name text : Text) :
    ∃ trace, Traces host (.ofTask host (.source name text) m) trace
      (.ofRun (m.runSource host name text)) := by
  have gives := gives_outcome (h.proper host name text)
  rw [outcome_source h.depth_eq] at gives
  exact gives.traces

/-- What a traced source gives is the result of its run. -/
lemma Reachable.ending_eq (h : Reachable m) {trace ending}
    (traced : Traces host (.ofTask host (.source name text) m) trace ending) :
    ending = .ofRun (m.runSource host name text) := by
  have gives := gives_outcome (h.proper host name text)
  rw [outcome_source h.depth_eq] at gives
  exact traced.gives.unique gives

/-- A reachable machine has a chronicle. -/
lemma Reachable.chronicle (h : Reachable m) : ∃ past, Chronicle past m := by
  have run : ∀ {m}, Reachable m → (∃ past, Chronicle past m) → ∀ host name text,
      ∃ past, Chronicle past (m.runSource host name text).2 := by
    intro m h ⟨past, told⟩ host name text
    obtain ⟨trace, traced⟩ := h.traces host name text
    exact ⟨_, Ending.machine_ofRun (m.runSource host name text) ▸ told.run host name text traced⟩
  induction h with
  | start => exact ⟨[], .start⟩
  | source host name text h ih => exact run h ih host name text
  | @file m host name h ih =>
    unfold Machine.runFile
    split
    · exact run h ih host name _
    · exact ih
  | interrupt interrupted _ ih =>
    obtain ⟨past, told⟩ := ih
    exact ⟨past, told.interrupt interrupted⟩

/-- A machine with a chronicle is reachable. -/
lemma Chronicle.reachable {past} (h : Chronicle past m) : Reachable m := by
  induction h with
  | start => exact .start
  | @run past m trace ending host name text _ traced ih =>
    rw [ih.ending_eq traced, Ending.machine_ofRun]
    exact ih.source host name text
  | interrupt interrupted _ ih => exact ih.interrupt interrupted

/-- The journal holds the statements of all runs. -/
lemma Chronicle.begun_eq {past} (h : Chronicle past m) :
    m.begun = past.filterMap Task.beginning? := by
  induction h with
  | start => rfl
  | @run past m trace ending host name text told traced ih =>
    rw [traced.begun_eq (told.reachable.proper host name text), ih, List.filterMap_append]
  | interrupt interrupted _ ih => exact ih

end

end Sigil
