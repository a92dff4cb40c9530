import Mathlib.Tactic.Common
import Sigil.Proofs.Machine.Trace

/-!
# The current script and the depth

A call and an import make another script current and go one level deeper, and both are undone
however they end: in a value, an error or a return. So a statement is always carried out while its
own script is current (`Task.Placed`), which is what an `if` and an export rely on; the limit of the
depth is never exceeded; and where it stops a run, it is reached exactly (`Ending.Shallow`).
-/

namespace Sigil

/-- The activity leaves the depth and the current script of the machine as they were. -/
def Balanced {ε α : Type} (act : EStateM ε Machine α) (m : Machine) : Prop :=
  (after act m).depth = m.depth ∧ (after act m).store.current = m.store.current

/-- Statements, blocks and scripts are started only while their script is current. -/
def Task.Placed (c : Task × Machine) : Prop :=
  match c.1 with
  | .statement site => c.2.store.current = some site.script
  | .block id _ => c.2.store.current = some id
  | .script id => c.2.store.current = some id
  | _ => True

/-- What ends because it would go too deep has reached the limit. -/
def Ending.Shallow (host : Host) (ending : Ending) : Prop :=
  ∀ depth limit, ending.TooDeep depth limit → depth = host.depthLimit ∧ limit = host.depthLimit

/-! ### What one activity leaves -/

section
variable {host : Host} {m : Machine}

/-- An activity that conducts itself well leaves depth and current script as they were. -/
lemma Conducts.balanced {ε α : Type} {left : Nat} {act : EStateM ε Machine α}
    (h : Conducts host left act) (hm : m.depth + left = host.depthLimit) : Balanced act m :=
  (h m hm).place_eq

/-- Calls, imports, scripts and statements are balanced, whatever they do and however they end. -/
lemma activities_balanced (hm : m.depth ≤ host.depthLimit) :
    (∀ site, Balanced (Statement.eval host site) m) ∧
    (∀ name f args, m.symbols.function? name = some f → Balanced ((m.level host).call f args) m) ∧
    (∀ name source, Balanced ((m.level host).load name source) m) ∧
    ∀ id, Balanced (Run.script host (m.level host) id) m := by
  have left : m.depth + (host.depthLimit - m.depth) = host.depthLimit := Nat.add_sub_cancel' hm
  have level := ofLeft_conducts host (host.depthLimit - m.depth)
  refine ⟨fun site => ?_, fun name f args known => ?_, fun name source => ?_, fun id => ?_⟩
  · exact (Statement.eval_conducts _).balanced left
  · exact (level.call known left args).place_eq
  · exact (level.load name source).balanced left
  · refine Conducts.balanced (.within (fun m' hm' => ?_) id) left
    exact (ofScript_conducts level id m').walk m' hm'

end

/-! ### All tasks of a run -/

section
variable {host : Host} {m : Machine}

/-- In a row of statements, the script stays current, and nothing ends too deep before the limit. -/
lemma placed_row {script : ScriptId} {due guard}
    (settles : ∀ {site ending} {m : Machine}, m.interrupted = false →
      Settles site ending (.silent (guard site (fun _ => ending) m))) :
    RowInvariant host Task.Placed (fun _ _ => Ending.Shallow host) script due guard
      fun _ _ ending => ending.machine.store.current = some script ∧ ending.Shallow host where
  settles := settles
  skips := id
  starts h _ := h.1
  goes {i is trace m inner ending ending'} h _ leads met next := by
    have current : ending.machine.store.current = some script := leads.place_eq.2.trans h.1
    cases next with
    | on => exact ⟨current, nofun⟩
    | reported e => exact ⟨current, nofun⟩
    | ended e =>
      subst e
      exact ⟨current, met⟩
  interrupts h := ⟨h.1, nofun⟩

/-- A statement starts its tasks in the right place. -/
lemma Statement.Launches.placed {site s task m'} (h : Launches host m site s task m')
    (placed : m.store.current = some site.script) : Task.Placed (task, m') := by
  cases h with
  | giveNext word => exact placed
  | call f args out lt => trivial
  | branch body => exact placed
  | load name source lt => trivial

/-- Every task that is in its place starts others in theirs. -/
lemma placed_upholds (c : Task × Machine) (proper : Task.Proper host c) (placed : Task.Placed c) :
    Upholds host Task.Placed (fun _ _ => Ending.Shallow host) (fun _ => Ending.Shallow host)
      (.ofTask host c.1 c.2) := by
  obtain ⟨task, m⟩ := c
  cases task with
  | statement site =>
    refine .statement ?_ ?_ ?_ ?_
    · -- a statement that cannot be read has not gone anywhere
      intro e read depth limit deep
      obtain ⟨_, deep⟩ := deep
      cases deep
      obtain recoverable | ⟨_, _, load⟩ := Statement.readAt_error read
      · cases recoverable
      · cases load
    · -- what starts nothing goes too deep only at the limit
      intro ending _ deepest depth limit deep
      obtain ⟨rfl, rfl, le⟩ := deepest depth limit deep
      exact ⟨Nat.le_antisymm proper.2.1 le, rfl⟩
    · exact fun _ launches => launches.placed placed
    · exact fun _ _ _ met finishes depth limit deep => met depth limit (finishes.tooDeep deep)
  | block id bracket => exact (placed_row guarded_settles).upholds And.right ⟨placed, nofun⟩
  | script id => exact (placed_row walked_settles).upholds And.right ⟨placed, nofun⟩
  | call f args =>
    refine .call rfl fun _ met finishes depth limit deep => ?_
    exact met depth limit (finishes.tooDeep deep)
  | source name text =>
    refine .source nofun (fun _ => rfl) fun _ _ _ met finishes depth limit deep => ?_
    exact met depth limit (finishes.tooDeep deep)

/-- A task in its place that goes too deep has reached the limit. -/
lemma Task.Proper.outcome_shallow {task : Task} (proper : Task.Proper host (task, m))
    (placed : Task.Placed (task, m)) {depth limit}
    (deep : (task.outcome host m).TooDeep depth limit) :
    depth = host.depthLimit ∧ limit = host.depthLimit := by
  obtain ⟨_, traced⟩ := (gives_outcome proper).traces
  exact (Upholds.meets placed_upholds proper placed traced).1 depth limit deep

/-- All tasks that were started in a chronicle were in their places. -/
lemma Chronicle.placed {past} (h : Chronicle past m) : ∀ c ∈ past, Task.Placed c := by
  induction h with
  | start => exact nofun
  | @run past m trace ending host name text told traced ih =>
    have proper := told.reachable.proper host name text
    intro c mem
    rcases List.mem_append.1 mem with mem | mem
    · exact ih c mem
    · rcases List.mem_cons.1 mem with rfl | mem
      · trivial
      · exact ((Upholds.meets placed_upholds proper trivial traced).2 c mem).2
  | interrupt _ _ ih => exact ih

/-- Every statement began while its own script was current. -/
lemma Reachable.began_placed (h : Reachable m) {site current depth}
    (began : .began site current depth ∈ m.journal) : current = some site.script := by
  obtain ⟨past, told⟩ := h.chronicle
  have listed : (site, current, depth) ∈ m.begun :=
    List.mem_filterMap.2 ⟨_, List.mem_reverse.2 began, rfl⟩
  rw [told.begun_eq] at listed
  obtain ⟨⟨task, m'⟩, mem, e⟩ := List.mem_filterMap.1 listed
  cases task with
  | statement site' =>
    cases e
    exact told.placed _ mem
  | block id bracket => cases e
  | script id => cases e
  | call f args => cases e
  | source name text => cases e

/-- No script is current between the steps of a host. -/
lemma Reachable.current_eq (h : Reachable m) : m.store.current = none := by
  induction h with
  | start => rfl
  | source host name text h ih => exact (source_leads h.depth_eq name text).place_eq.2.trans ih
  | file host name h ih => exact (file_leads h.depth_eq name).place_eq.2.trans ih
  | interrupt _ _ ih => exact ih

end

/-! ### What statements rely on -/

section
variable {m : Machine} {site : Site}

/-- In its own script, an `if` is decided by the first comparison that is written there. -/
lemma Statement.readIf_condition (current : m.store.current = some site.script) {holds body}
    (h : readIf m site = .ok (.branch holds body)) :
    ∃ i, condition? m site.script = some i ∧ holdsAt m ⟨site.script, i⟩ = .ok holds := by
  obtain ⟨label, _, h⟩ := bind_inv h
  split at h
  · cases h
  · simp only [current, Option.getD_some] at h
    split at h
    · cases h
    · rename_i i found
      obtain ⟨_, held, h⟩ := bind_inv h
      cases h
      exact ⟨i, found, held⟩

/-- An export lists the addresses of all records in the script that is current. -/
lemma Machine.exportAll_eq (current : m.store.current = some site.script) :
    m.exportAll site = { m with store := m.store.modify site.script fun s =>
      { s with exports := some m.symbols.addresses } } := by
  simp only [exportAll, current, Option.getD_some]

end

/-- The depth and the current script are balanced. Between runs nothing is nested and no script is
current, also after a run that has failed. Every statement that ever began did so while its own
script was current, so that an `if` looks for its condition there and an export marks that script.
In every run, the depth never exceeds the limit; statements, calls, imports and scripts leave the
depth and the current script as they found them, however they end; and whatever ends because it
would go too deep says that the depth is the limit. -/
theorem Reachable.place_balanced {m : Machine} (h : Reachable m) :
    (m.depth = 0 ∧ m.store.current = none) ∧
    (∀ site current depth, .began site current depth ∈ m.journal → current = some site.script) ∧
    ∀ host name text, ∃ trace,
      Traces host (.ofTask host (.source name text) m) trace
        (.ofRun (m.runSource host name text)) ∧
      ∀ task m', (task, m') ∈ (.source name text, m) :: trace →
        m'.depth ≤ host.depthLimit ∧
        (∀ site, task = .statement site → m'.store.current = some site.script ∧
          (∀ holds body, Statement.readIf (m'.beginning site) site = .ok (.branch holds body) →
            ∃ i, Statement.condition? m' site.script = some i ∧
              Statement.holdsAt m' ⟨site.script, i⟩ = .ok holds) ∧
          m'.exportAll site = { m' with store := m'.store.modify site.script fun s =>
            { s with exports := some m'.symbols.addresses } }) ∧
        (∀ site, Balanced (Statement.eval host site) m') ∧
        (∀ name f args, m'.symbols.function? name = some f →
          Balanced ((m'.level host).call f args) m') ∧
        (∀ name source, Balanced ((m'.level host).load name source) m') ∧
        (∀ id, Balanced (Run.script host (m'.level host) id) m') ∧
        ∀ depth limit, (task.outcome host m').TooDeep depth limit →
          depth = host.depthLimit ∧ limit = host.depthLimit := by
  refine ⟨⟨h.depth_eq, h.current_eq⟩, fun _ _ _ => h.began_placed, fun host name text => ?_⟩
  obtain ⟨trace, traced⟩ := h.traces host name text
  have root := h.proper host name text
  refine ⟨trace, traced, fun task m' mem => ?_⟩
  have started : Task.Proper host (task, m') ∧ Task.Placed (task, m') := by
    rcases List.mem_cons.1 mem with e | mem
    · cases e
      exact ⟨root, trivial⟩
    · exact (Upholds.meets placed_upholds root trivial traced).2 _ mem
  obtain ⟨proper, placed⟩ := started
  obtain ⟨evals, calls, loads, scripts⟩ := activities_balanced proper.2.1
  refine ⟨proper.2.1, ?_, evals, calls, loads, scripts, fun _ _ => proper.outcome_shallow placed⟩
  rintro site rfl
  exact ⟨placed, fun _ _ => Statement.readIf_condition placed, Machine.exportAll_eq placed⟩

/-- A function that calls itself is stopped at the limit, and the run leaves nothing nested and no
script current. -/
theorem place_balanced_self_call :
    let host : Host := { loader := .ofList [], depthLimit := 2 }
    let source := "@func \x7bf\x7d () \x7b @call \"f\" () \x7d @call \"f\" ()".toList
    ∃ trace m, Traces host (.ofTask host (.source ['a'] source) {}) trace
      (.error (.failed (.tooDeep 2 2)) m) ∧ m.depth = 0 ∧ m.store.current = none := by
  intro host source
  obtain ⟨trace, traced, _⟩ := (Reachable.place_balanced .start).2.2 host ['a'] source
  have left : Reachable (({} : Machine).runSource host ['a'] source).2 := .source host _ _ .start
  have failed : (({} : Machine).runSource host ['a'] source).1 = .error (.tooDeep 2 2) := by
    decide +kernel
  refine ⟨trace, _, ?_, (Reachable.place_balanced left).1⟩
  generalize ({} : Machine).runSource host ['a'] source = run at traced failed ⊢
  obtain ⟨result, m⟩ := run
  cases failed
  exact traced

end Sigil
