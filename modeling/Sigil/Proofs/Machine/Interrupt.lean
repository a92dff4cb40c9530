import Mathlib.Data.List.Basic
import Mathlib.Tactic.Common
import Sigil.Proofs.Machine.Lockstep

/-!
# Interrupts

An interrupt is asked for before a run or by native code that the run calls. What the run has done
since can be read off its journal. What it would have done otherwise is what the run of a patient
host does: one whose native code gives the same answers and never asks for an interrupt.

The two runs are compared by `Comparison.patient`. They note the same down until the interrupt is
asked for. From there on the first run adds nothing but reports, those of the statements in which
it happened, and it is apart from the second one as soon as that one begins another statement.
-/

namespace Sigil

/-- The native code with the same answers that never asks for an interrupt. -/
def Native.patient (code : Native) : Native where
  invoke earlier source := { code.invoke earlier source with interrupts := false }

/-- The host with the same sources, the same answers and no interrupts. -/
def Host.patient (host : Host) : Host :=
  { host with native := host.native.map Native.patient }

/-- The event is the report of a statement. -/
def Event.IsReport (event : Event) : Prop :=
  ∃ d, event = .reported d

/-- The event is the beginning of a statement. -/
def Event.IsBeginning (event : Event) : Prop :=
  ∃ site current depth, event = .began site current depth

/-! ### Interrupts by native code -/

/-- The journals of two runs, one of them with the interrupt that native code has just asked for. -/
inductive Asked (base : List Event) : List Event → List Event → Prop where
  | called {past} (source : Text) :
    .interrupted ∉ past →
    Asked base (.interrupted :: .called source :: past ++ base) (.called source :: past ++ base)

/-- An interrupt among the events of a journal that came since is one of these events. -/
lemma interrupted_mem (events : List Event) {base later earlier : List Event}
    (same : events ++ base = later ++ .interrupted :: earlier ++ base) : .interrupted ∈ events := by
  rw [List.append_cancel_right same]
  exact List.mem_append_right later List.mem_cons_self

/-- An interrupt is asked for only once. -/
lemma Asked.split {base journal journal' latest later earlier : List Event}
    (h : Asked base journal journal') (reports : ∀ event ∈ latest, Event.IsReport event)
    (same : latest ++ journal = later ++ .interrupted :: earlier ++ base) :
    latest = later ∧ journal' = earlier ++ base := by
  cases h with
  | @called past source unasked =>
    have front : .interrupted ∉ latest := by
      intro mem
      obtain ⟨d, e⟩ := reports _ mem
      cases e
    have back : .interrupted ∉ .called source :: past :=
      List.not_mem_cons_of_ne_of_not_mem nofun unasked
    have cut : latest ++ .interrupted :: (.called source :: past) =
        later ++ .interrupted :: earlier := by
      apply List.append_cancel_right
      simpa using same
    obtain ⟨rfl, -, rfl⟩ := (List.append_cons_inj_of_notMem front back).1 cut
    exact ⟨rfl, rfl⟩

/-- The notes of two runs in which no interrupt was asked for since the journal was `base`. -/
structure Calm (base : List Event) (n n' : Notes) : Prop where
  eq : n' = n
  awake : n.interrupted = false
  past : ∃ past, n.journal = past ++ base ∧ .interrupted ∉ past

/-- The notes of two runs in which no interrupt was asked for, or one by which the first run is
stopped. -/
inductive CalmOrAsked (base : List Event) : Notes → Notes → Prop where
  | calm {n n'} :
    Calm base n n' →
    CalmOrAsked base n n'
  | asked {journal journal' later} :
    Asked base journal journal' →
    (∀ event ∈ later, Event.IsReport event) →
    CalmOrAsked base ⟨true, later ++ journal⟩ ⟨false, later ++ journal'⟩

/-- The journals of two runs of which the first one was stopped and the second one has begun another
statement. -/
inductive Stopped (base : List Event) : List Event → List Event → Prop where
  | begun {journal journal' later further event} :
    Asked base journal journal' →
    (∀ event ∈ later, Event.IsReport event) →
    event ∈ further →
    event.IsBeginning →
    Stopped base (later ++ journal) (further ++ journal')

namespace Calm

variable {base : List Event} {n n' : Notes}

/-- Two runs start calmly if the machine is not interrupted. -/
lemma start {m : Machine} (awake : m.interrupted = false) :
    Calm m.journal m.notes ⟨false, m.journal⟩ where
  eq := congrArg (Notes.mk · m.journal) awake.symm
  awake := awake
  past := ⟨[], rfl, List.not_mem_nil⟩

/-- An event that is no interrupt leaves two runs calm. -/
lemma log (h : Calm base n n') {event : Event} (ne : event ≠ .interrupted) :
    Calm base (n.log event) (n'.log event) where
  eq := by rw [h.eq]
  awake := h.awake
  past := by
    obtain ⟨past, journal, unasked⟩ := h.past
    refine ⟨event :: past, by rw [Notes.log, journal, List.cons_append], ?_⟩
    exact List.not_mem_cons_of_ne_of_not_mem ne.symm unasked

/-- A native call, of which only the first run hears whether it asks for an interrupt. -/
lemma called (h : Calm base n n') (source : Text) (reply reply' : Reply)
    (patient : reply'.interrupts = false) :
    CalmOrAsked base (n.logNative source reply) (n'.logNative source reply') := by
  have second : n'.logNative source reply' = n.log (.called source) := by
    simp [Notes.logNative, patient, h.eq]
  rw [second]
  cases asks : reply.interrupts with
  | false =>
    have noted : Calm base (n.log (.called source)) (n'.log (.called source)) := h.log nofun
    rw [h.eq] at noted
    simpa [Notes.logNative, asks] using CalmOrAsked.calm noted
  | true =>
    obtain ⟨past, journal, unasked⟩ := h.past
    have asked : CalmOrAsked base ⟨true, [] ++ (.interrupted :: .called source :: past ++ base)⟩
        ⟨false, [] ++ (.called source :: past ++ base)⟩ :=
      .asked (.called source unasked) fun _ mem => absurd mem List.not_mem_nil
    simpa [Notes.logNative, Notes.log, asks, h.awake, journal] using asked

end Calm

/-- The runs of a host and of the patient one. -/
def Comparison.patient (host : Host) (base : List Event) : Comparison host host.patient where
  adapt := Native.patient
  more := 0
  ready := Calm base
  near := CalmOrAsked base
  apart e journal journal' := e = .interrupted ∧ Stopped base journal journal'
  loader_eq := rfl
  native_eq := rfl
  limit_eq := rfl
  near_of_ready := .calm
  interrupted_eq h := by rw [h.eq]
  sources_eq h := by rw [h.eq]
  began _ _ _ h := h.log nofun
  printed _ h := h.log nofun
  loaded _ h := h.log nofun
  reported d h := by
    cases h with
    | calm h => exact .calm (h.log nofun)
    | @asked _ _ later asked reports =>
      have all : ∀ event ∈ .reported d :: later, Event.IsReport event :=
        List.forall_mem_cons.2 ⟨⟨d, rfl⟩, reports⟩
      exact .asked asked all
  result_eq _ _ _ := rfl
  called _ source h := h.called source _ _ rfl
  stops h := by
    cases h with
    | calm h => exact .inl h
    | @asked _ _ later asked reports =>
      refine .inr ⟨rfl, rfl, fun site current depth journal grown => ⟨rfl, ?_⟩⟩
      obtain ⟨latest, rfl⟩ := grown
      have begun : .began site current depth ∈ latest ++ .began site current depth :: later :=
        List.mem_append_right _ List.mem_cons_self
      simpa using Stopped.begun asked reports begun ⟨site, current, depth, rfl⟩
  refuses h := absurd h (Nat.lt_irrefl 0)
  apart_fatal h := by
    rw [h.1]
    rfl
  apart_grows h grown := by
    obtain ⟨rfl, stopped⟩ := h
    obtain ⟨latest, rfl⟩ := grown
    cases stopped with
    | @begun _ _ _ further _ asked reports mem begins =>
      refine ⟨rfl, ?_⟩
      rw [← List.append_assoc]
      exact .begun asked reports (List.mem_append_right latest mem) begins

/-! ### Interrupts before a run -/

section
variable {host host' : Host} {m : Machine}

/-- A script that is interrupted from the start does nothing, and gets to its end only if there is
nothing to do. -/
lemma walk_of_interrupted (asked : m.interrupted = true) (level level' : Level) (id : ScriptId)
    (index : Nat) (shapes : List Shape) (n : Notes) :
    (Meaning.ofShapes host level id index shapes).walk m = .error .interrupted m ∨
      (Meaning.ofShapes host level id index shapes).walk m = .ok () m ∧
        (Meaning.ofShapes host' level' id index shapes).walk (m.withNotes n) =
          .ok () (m.withNotes n) := by
  induction shapes generalizing index with
  | nil => exact .inr ⟨rfl, rfl⟩
  | cons shape shapes ih =>
    have same : (m.withNotes n).nodes id = m.nodes id := rfl
    simp only [Meaning.ofShapes, Meaning.cons, same]
    by_cases due : shape.kind = .keyword ∧ Nodes.withinBlock (m.nodes id) index = false
    · refine .inl ?_
      rw [if_pos due]
      simp only [Bind.bind, EStateM.bind, Meaning.walkStatement, Statement.guarded, asked, if_true]
    · rw [if_neg due, if_neg due]
      exact ih (index + 1)

/-- A script that is interrupted before its first statement fails so, or has no statement to run. -/
lemma script_of_interrupted (asked : m.interrupted = true) (level level' : Level) (id : ScriptId)
    (n : Notes) :
    Run.script host level id m = .error .interrupted m ∨
      Run.script host level id m = .ok () m ∧
        Run.script host' level' id (m.withNotes n) = .ok () (m.withNotes n) := by
  have same : (m.withNotes n).setCurrent (some id) = (m.setCurrent (some id)).withNotes n := rfl
  have nodes :
      ((m.setCurrent (some id)).withNotes n).nodes id = (m.setCurrent (some id)).nodes id := rfl
  simp only [Run.script, Run.within, Meaning.ofScript, same, nodes]
  obtain stopped | ⟨first, second⟩ := walk_of_interrupted (m := m.setCurrent (some id)) asked level
    level' id 0 (((m.setCurrent (some id)).nodes id).map Node.toShape) n
  · rw [stopped]
    exact .inl rfl
  · rw [first, second]
    exact .inr ⟨rfl, rfl⟩

/-- The run of a source that is interrupted from the start. -/
lemma source_of_interrupted (host host' : Host) (asked : m.interrupted = true) (name text : Text) :
    let run := m.runSource host name text
    let free := (m.setInterrupted false).runSource host' name text
    (run.2.journal = m.journal ∨ run.2.journal = .loaded name :: m.journal) ∧
      (run.1 = .error .interrupted ∨ free.2.journal = run.2.journal) := by
  have same : (m.setInterrupted false).store = m.store := rfl
  simp only [Machine.runSource, Machine.run, Run.source, same]
  cases m.store.insert? name (Nodes.ofSource text) with
  | none => exact ⟨.inl rfl, .inr rfl⟩
  | some added =>
    obtain ⟨id, store⟩ := added
    have loaded : ({ m.setInterrupted false with store }.log (.loaded name)).substituteAll =
        ({ m with store }.log (.loaded name)).substituteAll.withNotes
          ⟨false, .loaded name :: m.journal⟩ := rfl
    simp only [loaded]
    obtain stopped | ⟨first, second⟩ :=
      script_of_interrupted (m := ({ m with store }.log (.loaded name)).substituteAll) asked
        (.outermost host) (.outermost host') id ⟨false, .loaded name :: m.journal⟩
    · rw [stopped]
      exact ⟨.inr rfl, .inl rfl⟩
    · rw [first, second]
      exact ⟨.inr rfl, .inr rfl⟩

/-- The run of a source during which native code asks for an interrupt. -/
lemma source_interrupts (hm : m.depth = 0) (awake : m.interrupted = false) (name text : Text)
    {later earlier : List Event} :
    let run := m.runSource host name text
    let free := (m.setInterrupted false).runSource host.patient name text
    run.2.journal = later ++ .interrupted :: earlier ++ m.journal →
    (∀ event ∈ later, Event.IsReport event) ∧
      ∃ further, free.2.journal = further ++ earlier ++ m.journal ∧
        (run.1 = .error .interrupted ∧ (∃ event ∈ further, Event.IsBeginning event) ∨
          run.1 = free.1 ∧ further = later) := by
  intro run free journal
  obtain ⟨result, m₁, n₁, first, second, near⟩ | ⟨e, m₁, first, rfl, stopped⟩ :=
    (Comparison.patient host m.journal).runSource hm name text (.start awake)
  · -- the two runs ended side by side
    have first : run = (result, m₁) := first
    have second : free = (result, m₁.withNotes n₁) := second
    rw [first] at journal ⊢
    rw [second]
    generalize noted : m₁.notes = n₀ at near
    have written : m₁.journal = n₀.journal := congrArg Notes.journal noted
    rw [written] at journal
    cases near with
    | calm calm =>
      obtain ⟨past, kept, unasked⟩ := calm.past
      exact absurd (interrupted_mem past (kept.symm.trans journal)) unasked
    | asked asked reports =>
      obtain ⟨rfl, rfl⟩ := asked.split reports journal
      exact ⟨reports, _, (List.append_assoc _ _ _).symm, .inr ⟨rfl, rfl⟩⟩
  · -- the first run was stopped where the second one went on
    have first : run = (.error .interrupted, m₁) := first
    have stopped : Stopped m.journal m₁.journal free.2.journal := stopped
    rw [first] at journal ⊢
    generalize m₁.journal = written at journal stopped
    generalize free.2.journal = written' at stopped ⊢
    cases stopped with
    | begun asked reports mem begins =>
      obtain ⟨rfl, rfl⟩ := asked.split reports journal
      exact ⟨reports, _, (List.append_assoc _ _ _).symm, .inl ⟨rfl, _, mem, begins⟩⟩

end

/-! ### Runs and interrupts -/

/-- The journal tells when an interrupt was asked for. -/
lemma Leads.interrupted_noted {host : Host} {m m' : Machine} (h : Leads host m m')
    (awake : m.interrupted = false) (asked : m'.interrupted = true) :
    ∃ later earlier, m'.journal = later ++ .interrupted :: earlier ++ m.journal := by
  -- nothing else asks for one
  have unasked : ∀ {a b : Machine}, b.interrupted = a.interrupted → a.interrupted = false →
      b.interrupted ≠ true := by
    intro a b same awake asked
    rw [same, awake] at asked
    cases asked
  have framed : ∀ {a b : Machine}, b.frame = a.frame → b.interrupted = a.interrupted :=
    fun e => congrArg (·.2.2.1) e
  induction h with
  | refl => exact absurd asked (unasked rfl awake)
  | @trans a b c first second ih ih' =>
    cases between : b.interrupted with
    | false =>
      obtain ⟨later, earlier, e⟩ := ih' between asked
      obtain ⟨added, grown⟩ := first.journal_grows
      exact ⟨later, earlier ++ added, by rw [e, ← grown]; simp⟩
    | true =>
      obtain ⟨later, earlier, e⟩ := ih awake between
      obtain ⟨added, grown⟩ := second.journal_grows
      exact ⟨added ++ later, earlier, by rw [← grown, e]; simp⟩
  | began => exact absurd asked (unasked rfl awake)
  | printed => exact absurd asked (unasked rfl awake)
  | reported => exact absurd asked (unasked rfl awake)
  | called source reply =>
    unfold Machine.logNative at asked ⊢
    dsimp only at asked ⊢
    split at asked
    · rename_i asks
      rw [if_pos asks]
      exact ⟨[], [.called source], rfl⟩
    · exact absurd asked (unasked rfl awake)
  | @bound m scope name text _ =>
    exact absurd asked (unasked (framed (m.frame_bind name text scope)) awake)
  | @assigned m site name text p =>
    exact absurd asked (unasked (framed (m.frame_assign site name text p)) awake)
  | @edited m address text =>
    exact absurd asked (unasked (framed (m.frame_update address text .follow)) awake)
  | defined => exact absurd asked (unasked rfl awake)
  | exported => exact absurd asked (unasked rfl awake)
  | loaded => exact absurd asked (unasked rfl awake)
  | within _ _ ih => exact ih awake asked
  | nested _ _ ih => exact ih awake asked

/-- What comes of an interrupt in the run of a source, compared with the run without interrupts. -/
structure Prompt (m : Machine) (name : Text) (run free : Except Error ScriptId × Machine) :
    Prop where
  /-- An interrupt that is asked for during the run is noted down when it is. -/
  noted : m.interrupted = false → run.2.interrupted = true →
    ∃ later earlier, run.2.journal = later ++ .interrupted :: earlier ++ m.journal
  /-- After an interrupt that was asked for before, the run does nothing but load its own source,
  and it fails if a statement would have begun. -/
  before : m.interrupted = true →
    (run.2.journal = m.journal ∨ run.2.journal = .loaded name :: m.journal) ∧
      ∃ further, free.2.journal = further ++ m.journal ∧
        ((∃ event ∈ further, Event.IsBeginning event) → run.1 = .error .interrupted)
  /-- After an interrupt that native code asks for, the run does nothing but report statements that
  had begun. It fails if another statement would have begun, and is not cut short otherwise. -/
  during : ∀ later earlier, run.2.journal = later ++ .interrupted :: earlier ++ m.journal →
    (∀ event ∈ later, Event.IsReport event) ∧
      ∃ further, free.2.journal = further ++ earlier ++ m.journal ∧
        ((∃ event ∈ further, Event.IsBeginning event) → run.1 = .error .interrupted) ∧
        ((¬ ∃ event ∈ further, Event.IsBeginning event) → run.1 = free.1 ∧ further = later)

namespace Prompt

variable {m : Machine} {name : Text}

/-- The run of a source is prompt. -/
lemma source (hm : m.depth = 0) (host : Host) (name text : Text) :
    Prompt m name (m.runSource host name text)
      ((m.setInterrupted false).runSource host.patient name text) where
  noted := (source_leads hm name text).interrupted_noted
  before asked := by
    obtain ⟨nothing, stopped | same⟩ := source_of_interrupted host host.patient asked name text
    · have leads : Leads host.patient (m.setInterrupted false) _ :=
        source_leads (m := m.setInterrupted false) hm name text
      obtain ⟨further, grown⟩ := leads.journal_grows
      exact ⟨nothing, further, grown.symm, fun _ => stopped⟩
    · refine ⟨nothing, ?_⟩
      rw [same]
      obtain kept | loaded := nothing
      · refine ⟨[], kept, ?_⟩
        rintro ⟨event, mem, _⟩
        exact absurd mem List.not_mem_nil
      · refine ⟨[.loaded name], loaded, ?_⟩
        rintro ⟨event, mem, site, current, depth, rfl⟩
        cases List.mem_singleton.1 mem
  during later earlier journal := by
    cases asked : m.interrupted with
    | false =>
      obtain ⟨reports, further, grown, ends⟩ := source_interrupts hm asked name text journal
      refine ⟨reports, further, grown, ?_, ?_⟩
      · rintro ⟨event, mem, site, current, depth, rfl⟩
        obtain ⟨failed, _⟩ | ⟨_, rfl⟩ := ends
        · exact failed
        · -- a report is not a beginning
          obtain ⟨d, e⟩ := reports _ mem
          cases e
      · intro quiet
        obtain ⟨_, begun⟩ | same := ends
        · exact absurd begun quiet
        · exact same
    | true =>
      -- what is noted down is at most one event, and not this one
      obtain ⟨kept | loaded, -⟩ := source_of_interrupted host host.patient asked name text
      · exact absurd (interrupted_mem [] (kept.symm.trans journal)) List.not_mem_nil
      · have mem := interrupted_mem [.loaded name] (loaded.symm.trans journal)
        cases List.mem_singleton.1 mem

/-- A run that cannot be started. -/
lemma refused (e : Error) : Prompt m name (.error e, m) (.error e, m.setInterrupted false) where
  noted awake asked := nomatch awake.symm.trans asked
  before _ := by
    refine ⟨.inl rfl, [], rfl, ?_⟩
    rintro ⟨event, mem, _⟩
    exact absurd mem List.not_mem_nil
  during later earlier journal := absurd (interrupted_mem [] journal) List.not_mem_nil

end Prompt

/-- Interrupts are prompt. Once one was asked for, before a run or by native code during it, the run
prints nothing, calls no native code, imports nothing and begins no statement. If it would have
begun another statement, it fails with the interrupt. -/
theorem Reachable.interrupts_prompt {m : Machine} (h : Reachable m) (host : Host) (name : Text) :
    (∀ text, Prompt m name (m.runSource host name text)
      ((m.setInterrupted false).runSource host.patient name text)) ∧
    Prompt m name (m.runFile host name) ((m.setInterrupted false).runFile host.patient name) := by
  refine ⟨fun text => .source h.depth_eq host name text, ?_⟩
  have same : host.patient.loader = host.loader := rfl
  unfold Machine.runFile
  rw [same]
  cases host.loader name with
  | ok text => exact .source h.depth_eq host name text
  | error failure => exact .refused (.load name failure)

/-- Native code asks for an interrupt inside a function, when the function is about to return. The
call still ends, and the statement behind it is not begun. -/
theorem interrupts_prompt_return :
    let host : Host := { loader := .ofList [], native := some (.prepared [{ interrupts := true }]) }
    let text := ("@func \x7bf\x7d () \x7b @return @execjs \"1\" \x7d "
      ++ "@call \"f\" () \x7bx\x7d @print \"2\"").toList
    let run := ({} : Machine).runSource host ['a'] text
    let free := (({} : Machine).setInterrupted false).runSource host.patient ['a'] text
    run.2.nativeSources = [['1']] ∧ run.2.output = [] ∧ free.2.output = [['2']] ∧
      run.1 = .error .interrupted := by
  intro host text run free
  obtain ⟨native, silent, journal⟩ : run.2.nativeSources = [['1']] ∧ run.2.output = [] ∧
      run.2.journal = [] ++ .interrupted :: run.2.journal.tail ++ [] := by decide +kernel
  obtain ⟨printed, beyond⟩ : free.2.output = [['2']] ∧
      free.2.journal = [.printed ['2'], .began ⟨0, 11⟩ (some 0) 0] ++ run.2.journal.tail ++ [] := by
    decide +kernel
  have prompt : Prompt {} ['a'] run free := (Reachable.interrupts_prompt .start host ['a']).1 text
  -- nothing else is to be computed
  clear_value run free
  refine ⟨native, silent, printed, ?_⟩
  obtain ⟨-, further, grown, stops, -⟩ := prompt.during [] _ journal
  refine stops ⟨.began ⟨0, 11⟩ (some 0) 0, ?_, _, _, _, rfl⟩
  have same : further = [.printed ['2'], .began ⟨0, 11⟩ (some 0) 0] :=
    List.append_cancel_right (List.append_cancel_right (grown.symm.trans beyond))
  rw [same]
  exact List.mem_cons_of_mem _ List.mem_cons_self

end Sigil
