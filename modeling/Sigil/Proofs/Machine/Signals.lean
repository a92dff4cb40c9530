import Mathlib.Tactic.Common
import Sigil.Proofs.Machine.Growth
import Sigil.Proofs.Machine.Trace

/-!
# What cuts a task short, and how far

A task is cut short by an error or by a return. Whichever it is, it comes from a task that was
started on the way, and each kind of task decides what it lets through: a block and a script report
recoverable errors and go on, a script also reports a return, and a call takes a return as its
value. `Gives.each_error` and `Gives.perform_error` say once where the signal of a row of statements
and that of a single statement come from, and `Gives.call_error` and `Gives.source_error` the same
for calls and sources.

With this, two things follow by induction on the rank of tasks. A return ends nothing but the
statements and blocks around it, all in its own script and up to the call that runs them
(`Answers`). And a name that is taken is found out by no one but the host: an import looks first
(`Task.Proper.duplicate_inv`).
-/

namespace Sigil

/-- The errors that end a run. -/
inductive Error.EndsRun : Error → Prop where
  | load (name : Text) (failure : LoadFailure) :
    EndsRun (.load name failure)
  | duplicateScript (name : Text) :
    EndsRun (.duplicateScript name)
  | tooDeep (depth limit : Nat) :
    EndsRun (.tooDeep depth limit)
  | interrupted :
    EndsRun .interrupted

/-- What is not recoverable ends a run. -/
lemma Error.endsRun_of_fatal {e : Error} (h : e.isRecoverable = false) : e.EndsRun := by
  cases e with
  | load name failure => exact .load name failure
  | duplicateScript name => exact .duplicateScript name
  | tooDeep depth limit => exact .tooDeep depth limit
  | interrupted => exact .interrupted
  | _ => cases h

/-! ### Where signals come from -/

section
variable {host : Host} {m m' : Machine} {signal : Signal}

/-- A row of statements is cut short by an interrupt, or by a statement whose ending its guard does
not take care of. -/
lemma Gives.each_error {script : ScriptId} {due guard} {is : List Nat}
    (h : Gives host (.each script due guard is m) (.error signal m')) :
    signal = .failed .interrupted ∨ ∃ i m₁ ending,
      Awaits host (.each script due guard is m) (.statement ⟨script, i⟩, m₁) ∧
      Gives host (.ofTask host (.statement ⟨script, i⟩) m₁) ending ∧ m₁.interrupted = false ∧
      guard ⟨script, i⟩ (fun _ => ending) m₁ = .error signal m' := by
  induction is generalizing m with
  | nil => cases h
  | cons i is ih =>
    unfold Course.each at h ⊢
    split at h
    · rename_i due
      rw [if_pos due]
      split at h
      · cases h
        exact .inl rfl
      · rename_i awake
        rw [if_neg awake]
        cases h with
        | @await _ _ _ ending _ first rest =>
          cases e : guard ⟨script, i⟩ (fun _ => ending) m with
          | ok _ m₂ =>
            -- the row has gone on, so it was cut short later
            simp only [e] at rest
            obtain interrupted | ⟨j, m₁, inner, awaits, gives, settled⟩ := ih rest
            · exact .inl interrupted
            · refine .inr ⟨j, m₁, inner, .later first ?_, gives, settled⟩
              simpa only [e] using awaits
          | error _ m₂ =>
            simp only [e] at rest
            cases rest
            exact .inr ⟨i, m, ending, .now, first, by simpa using awake, e⟩
    · rename_i due
      rw [if_neg due]
      exact ih h

/-- What a guard passes on is how the statement ended. -/
lemma Settles.error_inv {site : Site} {ending : Ending}
    (h : Settles site ending (.error signal m')) : ending = .error signal m' := by
  cases h with
  | ended e => exact e

/-- A block passes on how one of its statements has ended. -/
lemma Gives.block_error {id : ScriptId} {bracket : Nat}
    (h : Gives host (.ofTask host (.block id bracket) m) (.error signal m')) :
    signal = .failed .interrupted ∨ ∃ i m₁,
      Starts host (.block id bracket, m) (.statement ⟨id, i⟩, m₁) ∧
      Gives host (.ofTask host (.statement ⟨id, i⟩) m₁) (.error signal m') := by
  obtain interrupted | ⟨i, m₁, ending, awaits, gives, awake, passed⟩ := h.each_error
  · exact .inl interrupted
  · have settles : Settles ⟨id, i⟩ ending _ := guarded_settles awake
    rw [passed] at settles
    cases settles.error_inv
    exact .inr ⟨i, m₁, awaits, gives⟩

/-- A script passes on how one of its statements has failed, and no return. -/
lemma Gives.script_error {id : ScriptId}
    (h : Gives host (.ofTask host (.script id) m) (.error signal m')) :
    ∃ e, signal = .failed e ∧ (e = .interrupted ∨ ∃ i m₁,
      Starts host (.script id, m) (.statement ⟨id, i⟩, m₁) ∧
      Gives host (.ofTask host (.statement ⟨id, i⟩) m₁) (.error signal m')) := by
  obtain rfl | ⟨i, m₁, ending, awaits, gives, awake, passed⟩ := h.each_error
  · exact ⟨_, rfl, .inl rfl⟩
  · have settles : Settles ⟨id, i⟩ ending _ := walked_settles awake
    rw [passed] at settles
    cases settles.error_inv
    cases signal with
    | failed e => exact ⟨e, rfl, .inr ⟨i, m₁, awaits, gives⟩⟩
    | returned value =>
      -- a return is reported here
      simp only [Statement.walked, Run.toAction] at passed
      split at passed <;> cases passed

/-- A call passes on how the block of its function has failed, and no return. -/
lemma Gives.call_error {f : Function} {args : List Text}
    (h : Gives host (.ofTask host (.call f args) m) (.error signal m')) :
    ∃ e m₁ m₂, signal = .failed e ∧ Starts host (.call f args, m) (.block f.owner f.body, m₁) ∧
      Gives host (.ofTask host (.block f.owner f.body) m₁) (.error signal m₂) := by
  obtain ⟨inner, gives, ends⟩ := h.await_done_inv
  cases inner with
  | ok result m₂ => cases ends
  | error passed m₂ =>
    cases passed with
    | failed e =>
      cases ends
      exact ⟨e, _, m₂, rfl, .now, gives⟩
    | returned value => cases ends

/-- The value of a call is that of a return in the block of its function. -/
lemma Gives.call_value {f : Function} {args : List Text} {value : Value}
    (h : Gives host (.ofTask host (.call f args) m) (.ok (some value) m')) :
    ∃ m₁ m₂, Starts host (.call f args, m) (.block f.owner f.body, m₁) ∧
      Gives host (.ofTask host (.block f.owner f.body) m₁) (.error (.returned value) m₂) := by
  obtain ⟨inner, gives, ends⟩ := h.await_done_inv
  cases inner with
  | ok result m₂ => cases ends
  | error passed m₂ =>
    cases passed with
    | failed e => cases ends
    | returned value =>
      cases ends
      exact ⟨_, m₂, .now, gives⟩

/-- A source fails because its name is taken, and then nothing has happened, or as its script does.
-/
lemma Gives.source_error {name text : Text}
    (h : Gives host (.ofTask host (.source name text) m) (.error signal m')) :
    (signal = .failed (.duplicateScript name) ∧
      m.store.insert? name (Nodes.ofSource text) = none ∧ m' = m) ∨
    ∃ id m₁ m₂, Starts host (.source name text, m) (.script id, m₁) ∧
      Gives host (.ofTask host (.script id) m₁) (.error signal m₂) := by
  unfold Starts
  simp only [Course.ofTask] at h ⊢
  cases new : m.store.insert? name (Nodes.ofSource text) with
  | none =>
    rw [new] at h
    cases h
    exact .inl ⟨rfl, rfl, rfl⟩
  | some added =>
    rw [new] at h
    obtain ⟨inner, gives, ends⟩ := h.await_done_inv
    cases inner with
    | ok result m₂ => cases ends
    | error passed m₂ =>
      cases ends
      exact .inr ⟨added.1, _, m₂, .now, gives⟩

/-- A source is not ended by a return. -/
lemma Gives.source_not_returned {name text : Text} {value : Value} :
    ¬ Gives host (.ofTask host (.source name text) m) (.error (.returned value) m') := by
  intro h
  obtain ⟨taken, _⟩ | ⟨id, m₁, m₂, _, gives⟩ := h.source_error
  · cases taken
  · obtain ⟨e, failed, _⟩ := gives.script_error
    cases failed

/-- A statement fails by itself for a recoverable cause or at the last level, a return ends itself,
and any other signal comes from the task that the statement has started. -/
lemma Gives.perform_error {site : Site} {s : Statement}
    (h : Gives host (.perform host site s m) (.error signal m')) :
    (∃ e, signal = .failed e ∧ (e.isRecoverable = true ∨ ∃ depth limit, e = .tooDeep depth limit)) ∨
    (∃ value, signal = .returned value ∧ (s = .give value ∨ ∃ word, s = .giveNext word)) ∨
    ∃ task m₁ m₂, s.Launches host m site task m₁ ∧
      Awaits host (.perform host site s m) (task, m₁) ∧
      Gives host (.ofTask host task m₁) (.error signal m₂) := by
  cases s with
  | giveNext word =>
    obtain gives | ⟨result, m₁, -, e⟩ := h.andThen_error
    · exact .inr (.inr ⟨_, m, m', .giveNext word, .now, gives⟩)
    · cases result with
      | none =>
        cases e
        exact .inl ⟨_, rfl, .inl rfl⟩
      | some value =>
        cases e
        exact .inr (.inl ⟨value, rfl, .inr ⟨word, rfl⟩⟩)
  | call f args out =>
    obtain ⟨_, _, e⟩ | ⟨lt, m₂, awaits, gives⟩ := h.deeper_error fun _ _ => ⟨_, _, rfl⟩
    · exact .inl ⟨_, e, .inr ⟨_, _, rfl⟩⟩
    · exact .inr (.inr ⟨_, _, m₂, .call f args out lt, awaits, gives⟩)
  | load name source =>
    obtain ⟨_, _, e⟩ | ⟨lt, m₂, awaits, gives⟩ := h.deeper_error fun _ _ => ⟨_, _, rfl⟩
    · exact .inl ⟨_, e, .inr ⟨_, _, rfl⟩⟩
    · exact .inr (.inr ⟨_, _, m₂, .load name source lt, awaits, gives⟩)
  | branch holds body =>
    cases holds with
    | false => cases h
    | true =>
      obtain gives | ⟨_, _, -, e⟩ := h.andThen_error
      · exact .inr (.inr ⟨_, m, m', .branch body, .now, gives⟩)
      · cases e
  | give value =>
    cases h
    exact .inr (.inl ⟨value, rfl, .inl rfl⟩)
  | native code source out =>
    simp only [Course.perform, Statement.perform, Statement.performNative] at h
    split at h
    · cases h
    · cases h
      exact .inl ⟨_, rfl, .inl rfl⟩
  | nothing => cases h
  | print line => cases h
  | declare name text => cases h
  | define f => cases h
  | compare holds => cases h
  | edit address text => cases h
  | read out text => cases h
  | exportAll => cases h

end

/-! ### How far a return goes -/

/-- The script whose statements a task carries out itself. -/
def Task.home : Task → Option ScriptId
  | .statement site => some site.script
  | .block id _ => some id
  | _ => none

/-- A task is ended with a value by a return that it gets to on its own: the task is the return, or
it starts a task of the same script that is ended so. No call, import or script lies between. -/
inductive Answers (host : Host) : Task × Machine → Value → Prop where
  | here {site m value m'} :
    Keyword.ofText? (m.textAt site) = some .giveBack →
    Gives host (.ofTask host (.statement site) m) (.error (.returned value) m') →
    Answers host (.statement site, m) value
  | inside {c c' value id} :
    c.1.home = some id →
    c'.1.home = some id →
    Starts host c c' →
    Answers host c' value →
    Answers host c value

section
variable {host : Host} {m m' : Machine}

/-- A statement fails by itself if it cannot be read, for a recoverable cause or at the last level.
A return ends itself, and any other signal comes from the task that the statement has started. -/
lemma Gives.statement_error {site : Site} {signal : Signal}
    (h : Gives host (.ofTask host (.statement site) m) (.error signal m')) :
    (∃ e, signal = .failed e ∧ (e.isRecoverable = true ∨ (∃ name failure, e = .load name failure) ∨
      ∃ depth limit, e = .tooDeep depth limit)) ∨
    (∃ value, signal = .returned value ∧ Keyword.ofText? (m.textAt site) = some .giveBack) ∨
    ∃ s task m₁ m₂, Statement.readAt host (m.beginning site) site = .ok s ∧
      s.Launches host (m.beginning site) site task m₁ ∧
      Starts host (.statement site, m) (task, m₁) ∧
      Gives host (.ofTask host task m₁) (.error signal m₂) := by
  cases read : Statement.readAt host (m.beginning site) site with
  | error e =>
    rw [Course.ofTask_of_unread read] at h
    cases h
    obtain recoverable | load := Statement.readAt_error read
    · exact .inl ⟨e, rfl, .inl recoverable⟩
    · exact .inl ⟨e, rfl, .inr (.inl load)⟩
  | ok s =>
    rw [Course.ofTask_of_read read] at h
    obtain ⟨e, failed, recoverable | deep⟩ | ⟨value, returned, rfl | ⟨word, rfl⟩⟩ |
      ⟨task, m₁, m₂, launches, awaits, inner⟩ := h.perform_error
    · exact .inl ⟨e, failed, .inl recoverable⟩
    · exact .inl ⟨e, failed, .inr (.inr deep)⟩
    · exact .inr (.inl ⟨value, returned, Statement.readAt_word read rfl⟩)
    · exact .inr (.inl ⟨value, returned, Statement.readAt_word read rfl⟩)
    · refine .inr (.inr ⟨s, task, m₁, m₂, rfl, launches, ?_, inner⟩)
      rw [Starts, Course.ofTask_of_read read]
      exact awaits

/-- A task that is ended by a return gets to it on its own. -/
lemma Task.Proper.answers {c : Task × Machine} (proper : Task.Proper host c) {value : Value}
    (h : Gives host (.ofTask host c.1 c.2) (.error (.returned value) m')) :
    Answers host c value := by
  induction c using (rank_wf host).induction generalizing m' with
  | _ c ih =>
    -- what is started is of a smaller rank
    have started : ∀ {c' m'}, Starts host c c' →
        Gives host (.ofTask host c'.1 c'.2) (.error (.returned value) m') →
        Answers host c' value :=
      fun starts gives => ih _ (starts.below proper).2 (starts.below proper).1 gives
    obtain ⟨task, m⟩ := c
    cases task with
    | statement site =>
      obtain ⟨_, failed, _⟩ | ⟨_, _, word⟩ | ⟨s, task, m₁, m₂, read, launches, starts, inner⟩ :=
        h.statement_error
      · cases failed
      · exact .here word h
      · cases launches with
        | giveNext word => exact .here (Statement.readAt_word read rfl) h
        | branch body => exact .inside rfl rfl starts (started starts inner)
        | call f args out lt =>
          obtain ⟨_, _, _, failed, _⟩ := inner.call_error
          cases failed
        | load name source lt => exact absurd inner Gives.source_not_returned
    | block id bracket =>
      obtain failed | ⟨i, m₁, starts, inner⟩ := h.block_error
      · cases failed
      · exact .inside rfl rfl starts (started starts inner)
    | script id =>
      obtain ⟨_, failed, _⟩ := h.script_error
      cases failed
    | call f args =>
      obtain ⟨_, _, _, failed, _⟩ := h.call_error
      cases failed
    | source name text => exact absurd h Gives.source_not_returned

/-! ### Names that are taken -/

/-- A name is refused if and only if a script has it. -/
lemma Store.insert?_eq_none_iff {store : Store} {name : Text} {nodes : List Node} :
    store.insert? name nodes = none ↔ name ∈ store.scripts.map Script.name := by
  rw [← Store.idOf?_isSome_iff]
  unfold Store.insert?
  split <;> simp_all

/-- Only a source finds that a name is taken, and it is its own. -/
lemma Task.Proper.duplicate_inv {c : Task × Machine} (proper : Task.Proper host c) {name : Text}
    (h : Gives host (.ofTask host c.1 c.2) (.error (.failed (.duplicateScript name)) m')) :
    ∃ text, c.1 = .source name text ∧ name ∈ c.2.store.scripts.map Script.name := by
  induction c using (rank_wf host).induction generalizing m' with
  | _ c ih =>
    have started : ∀ {c' m'}, Starts host c c' →
        Gives host (.ofTask host c'.1 c'.2) (.error (.failed (.duplicateScript name)) m') →
        ∃ text, c'.1 = .source name text ∧ name ∈ c'.2.store.scripts.map Script.name :=
      fun starts gives => ih _ (starts.below proper).2 (starts.below proper).1 gives
    obtain ⟨task, m⟩ := c
    cases task with
    | statement site =>
      obtain ⟨e, failed, own⟩ | ⟨_, returned, _⟩ |
        ⟨s, task, m₁, m₂, read, launches, starts, inner⟩ := h.statement_error
      · cases failed
        obtain recoverable | ⟨_, _, load⟩ | ⟨_, _, deep⟩ := own
        · cases recoverable
        · cases load
        · cases deep
      · cases returned
      · obtain ⟨text, source, taken⟩ := started starts inner
        cases launches with
        | giveNext word => cases source
        | branch body => cases source
        | call f args out lt => cases source
        | load loaded text lt =>
          -- the import has looked whether the name is taken
          cases source
          have new : m.store.idOf? name = none := (Statement.readAt_inv read).1
          have found : (m.store.idOf? name).isSome = true := Store.idOf?_isSome_iff.2 taken
          rw [new] at found
          cases found
    | block id bracket =>
      obtain failed | ⟨i, m₁, starts, inner⟩ := h.block_error
      · cases failed
      · obtain ⟨_, source, _⟩ := started starts inner
        cases source
    | script id =>
      obtain ⟨_, failed, interrupted | ⟨i, m₁, starts, inner⟩⟩ := h.script_error
      · cases failed
        cases interrupted
      · obtain ⟨_, source, _⟩ := started starts inner
        cases source
    | call f args =>
      obtain ⟨_, _, _, _, starts, inner⟩ := h.call_error
      obtain ⟨_, source, _⟩ := started starts inner
      cases source
    | source own text =>
      obtain ⟨failed, taken, _⟩ | ⟨id, m₁, m₂, starts, inner⟩ := h.source_error
      · cases failed
        exact ⟨text, rfl, Store.insert?_eq_none_iff.1 taken⟩
      · obtain ⟨_, source, _⟩ := started starts inner
        cases source

/-- An import ends without a value, or for a cause that ends the run. -/
lemma Task.Proper.import_ends {site : Site} (proper : Task.Proper host (.statement site, m))
    {name source : Text} {ending : Ending}
    (read : Statement.readAt host (m.beginning site) site = .ok (.load name source))
    (h : Gives host (.ofTask host (.statement site) m) ending) :
    (∃ m', ending = .ok none m') ∨ ∃ e m', ending = .error (.failed e) m' ∧ e.EndsRun := by
  cases h.unique (gives_outcome proper)
  have fatal := (Fatal.ofLeft host (host.depthLimit - m.depth)).2 name source
  unfold Machine.beginning at read
  simp only [Task.outcome, Statement.eval_eq proper.2.2, Statement.evalAt, read,
    Statement.perform, Bind.bind, EStateM.bind]
  cases e : ((m.level host).load name source).toAction
    (m.log (.began site m.store.current m.depth)) with
  | ok _ m₁ => exact .inl ⟨m₁, rfl⟩
  | error signal m₁ =>
    cases signal with
    | failed e' => exact .inr ⟨e', m₁, rfl, Error.endsRun_of_fatal (fatal e)⟩
    | returned value =>
      simp only [Run.toAction] at e
      split at e <;> cases e

/-! ### What the host sees -/

/-- Only recoverable errors are reported. -/
lemma Visited.reports_recoverable (h : Visited m) :
    ∀ d, .reported d ∈ m.journal → d.error.isRecoverable = true := by
  induction h with
  | start => exact fun d mem => absurd mem List.not_mem_nil
  | leads _ leads ih =>
    obtain ⟨added, e, mild⟩ := leads.journal_adds
    intro d mem
    rcases List.mem_append.1 (e ▸ mem) with mem | mem
    · exact mild d mem
    · exact ih d mem
  | current _ _ ih => exact ih
  | deeper _ _ ih => exact ih
  | interrupt _ _ ih => exact ih

/-- Every error of a run is one that ends it. -/
lemma runSource_endsRun {name text : Text} {e : Error}
    (h : (m.runSource host name text).1 = .error e) : e.EndsRun := by
  unfold Machine.runSource Machine.run at h
  split at h
  · cases h
  · rename_i ended
    cases h
    have fatal : Fatal (Run.source host (.outermost host) name text).toAction :=
      .source name text
    exact Error.endsRun_of_fatal (fatal (toAction_failed.2 ended))

/-- A source whose name is taken changes nothing. -/
lemma runSource_of_taken {name : Text} (taken : name ∈ m.store.scripts.map Script.name)
    (text : Text) : m.runSource host name text = (.error (.duplicateScript name), m) := by
  have none : m.store.insert? name (Nodes.ofSource text) = none :=
    Store.insert?_eq_none_iff.2 taken
  simp only [Machine.runSource, Machine.run, Run.source, none]

end

/-- Only errors that end a run reach the host. All others are reported, and nothing else is. A run
finds that the name of its source is taken exactly if it was when the host started it, and then it
does nothing. No run is ended by a return: in all that a run starts, a return ends the statements
and blocks around it in its own script, a call takes its value from one in the block of its
function, and an import ends without a value or with the run. -/
theorem Reachable.errors_end_run {m : Machine} (h : Reachable m) :
    (∀ d ∈ m.diagnostics, d.error.isRecoverable = true) ∧
    ∀ host,
      (∀ name text e, (m.runSource host name text).1 = .error e → e.EndsRun) ∧
      (∀ name e, (m.runFile host name).1 = .error e → e.EndsRun) ∧
      (∀ name text, (∃ taken, (m.runSource host name text).1 = .error (.duplicateScript taken)) ↔
        name ∈ m.store.scripts.map Script.name) ∧
      (∀ name text, name ∈ m.store.scripts.map Script.name →
        m.runSource host name text = (.error (.duplicateScript name), m)) ∧
      ∀ name text,
        (∀ value m', ¬ Gives host (.ofTask host (.source name text) m)
          (.error (.returned value) m')) ∧
        ∀ c, Relation.ReflTransGen (Starts host) (.source name text, m) c →
          ∀ ending, Gives host (.ofTask host c.1 c.2) ending →
            (∀ value m', ending = .error (.returned value) m' → Answers host c value) ∧
            (∀ f args value m', c.1 = .call f args → ending = .ok (some value) m' →
              ∃ m₁, Starts host c (.block f.owner f.body, m₁) ∧
                Answers host (.block f.owner f.body, m₁) value) ∧
            ∀ site n source, c.1 = .statement site →
              Statement.readAt host (c.2.beginning site) site = .ok (.load n source) →
                (∃ m', ending = .ok none m') ∨
                ∃ e m', ending = .error (.failed e) m' ∧ e.EndsRun := by
  refine ⟨?_, fun host => ⟨?_, ?_, ?_, ?_, ?_⟩⟩
  · intro d mem
    obtain ⟨event, mem, e⟩ := List.mem_filterMap.1 mem
    cases event with
    | reported d' =>
      cases e
      exact h.visited.reports_recoverable d (List.mem_reverse.1 mem)
    | _ => cases e
  · exact fun name text e => runSource_endsRun
  · intro name e failed
    unfold Machine.runFile at failed
    split at failed
    · exact runSource_endsRun failed
    · cases failed
      exact .load name _
  · intro name text
    refine ⟨fun ⟨taken, failed⟩ => ?_, fun taken => ⟨name, ?_⟩⟩
    · have gives := gives_outcome (h.proper host name text)
      rw [outcome_source h.depth_eq] at gives
      generalize m.runSource host name text = run at gives failed
      obtain ⟨result, m'⟩ := run
      cases failed
      obtain ⟨_, source, mem⟩ := (h.proper host name text).duplicate_inv gives
      cases source
      exact mem
    · rw [runSource_of_taken taken]
  · exact fun name text taken => runSource_of_taken taken text
  · intro name text
    refine ⟨fun value m' => Gives.source_not_returned, fun c started ending gives => ?_⟩
    have proper := proper_of_starts started (h.proper host name text)
    refine ⟨?_, ?_, ?_⟩
    · rintro value m' rfl
      exact proper.answers gives
    · obtain ⟨task, m₁⟩ := c
      rintro f args value m' rfl rfl
      obtain ⟨m₂, m₃, starts, inner⟩ := gives.call_value
      exact ⟨m₂, starts, (starts.below proper).1.answers inner⟩
    · obtain ⟨task, m₁⟩ := c
      rintro site n source rfl read
      exact proper.import_ends read gives

/-- A function imports a script that has a return outside all functions. The return is reported and
the function goes on. Under the name of the first script, nothing more is run. -/
theorem errors_end_run_return_in_import :
    let host : Host := { loader := .ofList [("lib".toList, "@return \"1\"".toList)] }
    let text := ("@func \x7bf\x7d () \x7b @usingfile \"lib\" @return \"2\" \x7d "
      ++ "@call \"f\" () \x7bx\x7d @print \"[#x]\"").toList
    let m := (({} : Machine).runSource host ['a'] text).2
    m.output = [['2']] ∧
      m.diagnostics = [⟨"lib".toList, 0, .returnOutsideFunction⟩] ∧
      (∀ d ∈ m.diagnostics, d.error.isRecoverable = true) ∧
      m.runSource host ['a'] text = (.error (.duplicateScript ['a']), m) := by
  intro host text m
  have reachable : Reachable m := .source host _ _ .start
  obtain ⟨printed, reported, taken⟩ : m.output = [['2']] ∧
      m.diagnostics = [⟨"lib".toList, 0, .returnOutsideFunction⟩] ∧
      ['a'] ∈ m.store.scripts.map Script.name := by decide +kernel
  obtain ⟨recoverable, runs⟩ := reachable.errors_end_run
  exact ⟨printed, reported, recoverable, (runs host).2.2.2.1 ['a'] text taken⟩

end Sigil
