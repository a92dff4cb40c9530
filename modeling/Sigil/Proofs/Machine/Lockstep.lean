import Mathlib.Tactic.Common
import Sigil.Proofs.Machine.Growth
import Sigil.Proofs.Machine.Recursion

/-!
# Two runs side by side

What a run does depends on its host in three places: where it loads a source, where it calls native
code, and where it refuses to go deeper. Two runs whose hosts differ in little go on in the same
way for as long as they get the same answers there, and their machines then differ in nothing but
their `Notes`: whether an interrupt was asked for, and the journal.

A `Comparison` says what two hosts have to do with each other and how far the notes may differ. Its
laws are about single events, and `Comparison.ofLeft` takes them through the evaluator: two
activities that are started in machines that are alike end alike, or the first one fails for a
cause that parts them (`Comparison.Paired`).
-/

namespace Sigil

/-- What a machine has noted down. -/
structure Notes where
  interrupted : Bool
  journal : List Event

namespace Notes

/-- Adds an event to the journal. -/
def log (n : Notes) (event : Event) : Notes :=
  { n with journal := event :: n.journal }

/-- The texts given to native code in order. -/
def nativeSources (n : Notes) : List Text :=
  n.journal.reverse.filterMap Event.nativeSource?

/-- Notes a native call, and the interrupt that its answer may ask for. -/
def logNative (n : Notes) (source : Text) (reply : Reply) : Notes :=
  if reply.interrupts then ⟨true, .interrupted :: .called source :: n.journal⟩
  else n.log (.called source)

end Notes

namespace Machine

/-- What was noted down. -/
def notes (m : Machine) : Notes :=
  ⟨m.interrupted, m.journal⟩

/-- The machine with other notes. -/
def withNotes (m : Machine) (n : Notes) : Machine :=
  { m with interrupted := n.interrupted, journal := n.journal }

/-- The change neither looks at the notes nor adds to them. -/
def Silent (change : Machine → Machine) : Prop :=
  ∀ m n, change (m.withNotes n) = (change m).withNotes n

/-- A silent change adds nothing to the notes. -/
lemma Silent.notes_eq {change : Machine → Machine} (h : Silent change) (m : Machine) :
    (change m).notes = m.notes :=
  calc
    (change m).notes = ((change m).withNotes m.notes).notes := congrArg notes (h m m.notes)
    _ = m.notes := rfl

/-- An update is silent. -/
lemma update_silent (address : Address) (text : Text) (p : Propagation) :
    Silent (·.update address text p) := by
  intro m n
  simp only [update, withNotes]
  cases m.symbols.textAt address with
  | none => rfl
  | some old => cases p <;> rfl

/-- A change of a list is silent. -/
lemma edit_silent (address : Address) (text : Text) (p : Propagation) :
    Silent fun m => (m.update address text p).substituteAll := by
  intro m n
  exact congrArg substituteAll (update_silent address text p m n)

/-- A binding is silent. -/
lemma bind_silent (name text : Text) (scope : Scope) : Silent (·.bind name text scope) := by
  intro m n
  simp only [bind]
  cases e : m.symbols.variableIn name scope with
  | none =>
    have e' : (m.withNotes n).symbols.variableIn name scope = none := e
    rw [e']
    rfl
  | some found =>
    have e' : (m.withNotes n).symbols.variableIn name scope = some found := e
    rw [e']
    exact edit_silent found.1 text .follow m n

/-- An assignment is silent. -/
lemma assign_silent (site : Site) (name text : Text) (p : Propagation) :
    Silent (·.assign site name text p) := by
  intro m n
  simp only [assign]
  cases e : m.symbols.resolve name (m.scopeOf site) with
  | none =>
    have e' : (m.withNotes n).symbols.resolve name ((m.withNotes n).scopeOf site) = none := e
    rw [e']
    exact bind_silent name text (m.scopeOf site) m n
  | some found =>
    have e' : (m.withNotes n).symbols.resolve name ((m.withNotes n).scopeOf site) = some found := e
    rw [e']
    exact edit_silent found.1 text p m n

/-- To store a result is silent. -/
lemma assignResult_silent (site : Site) (out : Option Text) (result : Option Value) :
    Silent (·.assignResult site out result) := by
  intro m n
  cases out with
  | none => rfl
  | some name =>
    cases result with
    | none => rfl
    | some value => exact assign_silent site name value.toText .follow m n

/-- To bind the arguments of a call is silent. -/
lemma bindArguments_silent (f : Function) (args : List Text) :
    Silent (·.bindArguments f args) := by
  intro m n
  simp only [bindArguments]
  induction f.params.zip args generalizing m with
  | nil => rfl
  | cons pair pairs ih =>
    have bound := bind_silent (f.name ++ ".args.".toList ++ pair.1) pair.2
      (.bracket f.owner f.body) m n
    simp only [List.foldl_cons] at bound ⊢
    rw [bound, ih]

/-- To bind the arguments of a call changes nothing in the depth. -/
lemma depth_bindArguments (m : Machine) (f : Function) (args : List Text) :
    (m.bindArguments f args).depth = m.depth := by
  unfold bindArguments
  induction f.params.zip args generalizing m with
  | nil => rfl
  | cons pair pairs ih =>
    have frame := m.frame_bind (f.name ++ ".args.".toList ++ pair.1) pair.2
      (.bracket f.owner f.body)
    exact (ih _).trans (congrArg (·.2.1) frame)

/-- With other notes, a native call is noted among these. -/
lemma withNotes_logNative (m : Machine) (n : Notes) (source : Text) (reply reply' : Reply) :
    (m.withNotes n).logNative source reply' =
      (m.logNative source reply).withNotes (n.logNative source reply') := by
  unfold logNative Notes.logNative
  dsimp only
  split <;> split <;> rfl

/-- A native call is noted in the notes. -/
lemma notes_logNative (m : Machine) (source : Text) (reply : Reply) :
    (m.logNative source reply).notes = m.notes.logNative source reply := by
  unfold logNative Notes.logNative
  dsimp only
  split <;> rfl

end Machine

/-! ### Reading with other notes -/

/-- The statement with other native code. -/
def Statement.adapt (change : Native → Native) : Statement → Statement
  | .native code source out => .native (change code) source out
  | s => s

/-- Only statements of native code are changed with the native code. -/
lemma Statement.adapt_eq {s : Statement} (change : Native → Native)
    (other : s.word? ≠ some .native) : s.adapt change = s := by
  cases s with
  | native code source out => exact absurd rfl other
  | _ => rfl

/-- What is read at a site depends on the notes nowhere, and on the host only through its sources
and its native code. -/
lemma Statement.readAt_withNotes {host host' : Host} {change : Native → Native}
    (loader : host'.loader = host.loader) (native : host'.native = host.native.map change)
    (m : Machine) (n : Notes) (site : Site) :
    readAt host' (m.withNotes n) site = (readAt host m site).map (adapt change) := by
  -- no other keyword is read as a native call
  have plain : ∀ {keyword}, keyword ≠ .native →
      ofKeyword host' (m.withNotes n) site keyword = ofKeyword host m site keyword →
      ofKeyword host' (m.withNotes n) site keyword =
        (ofKeyword host m site keyword).map (adapt change) := by
    intro keyword ne e
    rw [e]
    cases read : ofKeyword host m site keyword with
    | error e => rfl
    | ok s =>
      refine congrArg Except.ok (adapt_eq change fun word => ne ?_).symm
      exact (ofKeyword_inv read).2 _ word
  unfold readAt
  dsimp only
  have text : (m.withNotes n).textAt site = m.textAt site := rfl
  rw [text]
  cases Keyword.ofText? (m.textAt site) with
  | none => cases Keyword.isTolerated (m.textAt site) <;> rfl
  | some keyword =>
    cases keyword with
    | native =>
      simp only [ofKeyword, readNative, native]
      have operand : (m.withNotes n).require site .native .string 0 =
        m.require site .native .string 0 := rfl
      rw [operand]
      cases m.require site .native .string 0 with
      | error e => rfl
      | ok source => cases host.native <;> rfl
    | usingFile =>
      refine plain nofun ?_
      simp only [ofKeyword, readUsing, loader]
      rfl
    | _ => exact plain nofun rfl

/-! ### Comparisons -/

/-- The machine that is left by the end of an activity. -/
def leaves {ε α : Type} : EStateM.Result ε Machine α → Machine
  | .ok _ m => m
  | .error _ m => m

/-- What an activity leaves is the machine after it. -/
lemma leaves_eq {ε α : Type} (act : EStateM ε Machine α) (m : Machine) :
    leaves (act m) = after act m := by
  unfold leaves after
  cases act m <;> rfl

/-- What is nested runs one level deeper, and comes back from there however it ends. -/
lemma toAction_nested {α : Type} (run : Run α) (m : Machine) :
    run.nested.toAction m =
      match run.toAction { m with depth := m.depth + 1 } with
      | .ok a m => .ok a { m with depth := m.depth - 1 }
      | .error signal m => .error signal { m with depth := m.depth - 1 } := by
  simp only [Run.toAction, Run.nested]
  cases run { m with depth := m.depth + 1 } <;> rfl

/-- As an action, a script is the walk over its statements while it is the current one. -/
lemma toAction_script (host : Host) (level : Level) (id : ScriptId) :
    (Run.script host level id).toAction =
      Run.within id fun m => (Meaning.ofScript host level id m).walk.toAction m := by
  funext m
  simp only [Run.toAction, Run.script, Run.within]
  cases (Meaning.ofScript host level id (m.setCurrent (some id))).walk (m.setCurrent (some id)) <;>
    rfl

/-- A source is loaded if its name is free, and then its script runs. -/
lemma toAction_source (host : Host) (level : Level) (name text : Text) (m : Machine) :
    (Run.source host level name text).toAction m =
      match m.store.insert? name (Nodes.ofSource text) with
      | none => .error (.failed (.duplicateScript name)) m
      | some (id, store) =>
        match (Run.script host level id).toAction
          ({ m with store }.log (.loaded name)).substituteAll with
        | .ok _ m => .ok id m
        | .error signal m => .error signal m := by
  simp only [Run.toAction, Run.source]
  cases m.store.insert? name (Nodes.ofSource text) with
  | none => rfl
  | some added =>
    dsimp only
    cases Run.script host level added.1
      ({ m with store := added.2 }.log (.loaded name)).substituteAll <;> rfl

/-- A statement that was started is reported at most. -/
lemma leaves_guarded (act : Action (Option Value)) (m : Machine) (awake : m.interrupted = false)
    (site : Site) :
    (leaves (act m)).journal <:+ (leaves (Statement.guarded site act m)).journal := by
  simp only [Statement.guarded, awake, Bool.false_eq_true, if_false]
  cases act m with
  | ok _ m' => exact List.suffix_refl _
  | error signal m' =>
    cases signal with
    | returned value => exact List.suffix_refl _
    | failed e =>
      dsimp only
      split
      · exact List.suffix_cons _ _
      · exact List.suffix_refl _

/-- When a statement is walked past, nothing that it has noted is lost. -/
lemma leaves_walked (act : Action (Option Value)) (m : Machine) (site : Site) :
    (leaves (Statement.guarded site act m)).journal <:+
      (leaves (Statement.walked site act m)).journal := by
  simp only [Statement.walked, Run.toAction, Meaning.walkStatement]
  cases Statement.guarded site act m with
  | ok _ m' => exact List.suffix_refl _
  | error signal m' =>
    cases signal with
    | returned value => exact List.suffix_cons _ _
    | failed e => exact List.suffix_refl _

/-- A statement has begun when it is carried out. -/
lemma evalAt_begins {host : Host} {left : Nat} {level : Level} {behind : Meaning}
    (hl : level.Conducts host left) (hb : behind.Conducts host left) (site : Site) (m : Machine)
    (hm : m.depth + left = host.depthLimit) :
    .began site m.store.current m.depth :: m.journal <:+
      (leaves (Statement.evalAt host level behind site m)).journal := by
  simp only [Statement.evalAt]
  cases e : Statement.readAt host (m.log (.began site m.store.current m.depth)) site with
  | error error => exact List.suffix_refl _
  | ok s =>
    have leads := perform_leads hl hb (m := m.log (.began site m.store.current m.depth)) hm
      (Statement.readAt_inv e)
    rw [← leaves_eq] at leads
    exact leads.journal_grows

/-- What the runs of two hosts have in common. -/
structure Comparison (host host' : Host) where
  /-- What the second host has for the native code of the first one. -/
  adapt : Native → Native
  /-- How many levels the second host has more. -/
  more : Nat
  /-- The notes with which statements are started in both runs. -/
  ready : Notes → Notes → Prop
  /-- The notes with which statements end in both runs. -/
  near : Notes → Notes → Prop
  /-- The first run has failed and the second one has not, and these are their journals. -/
  apart : Error → List Event → List Event → Prop
  loader_eq : host'.loader = host.loader
  native_eq : host'.native = host.native.map adapt
  limit_eq : host'.depthLimit = host.depthLimit + more
  near_of_ready : ∀ {n n'}, ready n n' → near n n'
  interrupted_eq : ∀ {n n'}, ready n n' → n'.interrupted = n.interrupted
  sources_eq : ∀ {n n'}, ready n n' → n'.nativeSources = n.nativeSources
  began : ∀ {n n'} (site : Site) (current : Option ScriptId) (depth : Nat), ready n n' →
    ready (n.log (.began site current depth)) (n'.log (.began site current depth))
  printed : ∀ {n n'} (line : Text), ready n n' →
    ready (n.log (.printed line)) (n'.log (.printed line))
  loaded : ∀ {n n'} (name : Text), ready n n' →
    ready (n.log (.loaded name)) (n'.log (.loaded name))
  reported : ∀ {n n'} (d : Diagnostic), near n n' →
    near (n.log (.reported d)) (n'.log (.reported d))
  result_eq : ∀ (code : Native) (earlier : List Text) (source : Text),
    ((adapt code).invoke earlier source).result = (code.invoke earlier source).result
  called : ∀ {n n'} (code : Native) (source : Text), ready n n' →
    near (n.logNative source (code.invoke n.nativeSources source))
      (n'.logNative source ((adapt code).invoke n.nativeSources source))
  /-- Only an interrupt keeps the first run from starting a statement that the second one starts. -/
  stops : ∀ {n n'}, near n n' → ready n n' ∨ n.interrupted = true ∧ n'.interrupted = false ∧
    ∀ site current depth {journal}, .began site current depth :: n'.journal <:+ journal →
      apart .interrupted n.journal journal
  refuses : 0 < more → ∀ depth limit journal journal', apart (.tooDeep depth limit) journal journal'
  apart_fatal : ∀ {e journal journal'}, apart e journal journal' → e.isRecoverable = false
  apart_grows : ∀ {e journal journal' journal''}, apart e journal journal' →
    journal' <:+ journal'' → apart e journal journal''

namespace Comparison

variable {host host' : Host} {α β : Type}

/-- How an activity ends in two runs: alike, up to notes that are near, or the first run fails and
they are apart. -/
inductive Paired (c : Comparison host host') :
    EStateM.Result Signal Machine α → EStateM.Result Signal Machine α → Prop where
  | ok {a m n} :
    c.near m.notes n →
    Paired c (.ok a m) (.ok a (m.withNotes n))
  | error {signal m n} :
    c.near m.notes n →
    Paired c (.error signal m) (.error signal (m.withNotes n))
  | apart {e m ending} :
    c.apart e m.journal (leaves ending).journal →
    Paired c (.error (.failed e) m) ending

/-- With so many levels left in the first run, the activities end alike or apart whenever they are
started in machines that are alike up to such notes. -/
def Tracks (c : Comparison host host') (left : Nat) (start : Notes → Notes → Prop)
    (act act' : Action α) : Prop :=
  ∀ m n, m.depth + left = host.depthLimit → start m.notes n →
    c.Paired (act m) (act' (m.withNotes n))

variable {c : Comparison host host'} {m : Machine} {n : Notes} {left : Nat}

/-- The levels that are left in the second run. -/
lemma depth_eq (c : Comparison host host') (n : Notes) (hm : m.depth + left = host.depthLimit) :
    (m.withNotes n).depth + (left + c.more) = host'.depthLimit := by
  have limit := c.limit_eq
  simp only [Machine.withNotes]
  omega

/-- A report is the same in both runs. -/
lemma report (near : c.near m.notes n) (site : Site) (e : Error) :
    ∃ n', (m.withNotes n).report site e = (m.report site e).withNotes n' ∧
      c.near (m.report site e).notes n' :=
  ⟨_, rfl, c.reported _ near⟩

namespace Paired

variable {act act' : Action α}

/-- A change that both runs make. -/
lemma effect {change : Machine → Machine} (silent : Machine.Silent change) (result : Option Value)
    (near : c.near m.notes n) :
    c.Paired (Statement.effect change result m)
      (Statement.effect change result (m.withNotes n)) := by
  simp only [Statement.effect, silent m n]
  refine .ok ?_
  rwa [silent.notes_eq]

/-- One activity after the other. Where the first ones are apart, what follows in the second run
only adds to its journal. -/
lemma bind {f f' : α → Action β} (h : c.Paired (act m) (act' (m.withNotes n)))
    (goes : ∀ a m₁ n₁, act' (m.withNotes n) = .ok a (m₁.withNotes n₁) → c.near m₁.notes n₁ →
      c.Paired (f a m₁) (f' a (m₁.withNotes n₁)))
    (grows : ∀ a m₁, act' (m.withNotes n) = .ok a m₁ → m₁.journal <:+ (leaves (f' a m₁)).journal) :
    c.Paired ((act >>= f) m) ((act' >>= f') (m.withNotes n)) := by
  simp only [Bind.bind, EStateM.bind]
  generalize act m = ending at h
  generalize e : act' (m.withNotes n) = ending' at h
  cases h with
  | ok near => exact goes _ _ _ e near
  | error near => exact .error near
  | apart parted =>
    refine .apart (c.apart_grows parted ?_)
    cases ending' with
    | ok a m₁ => exact grows a m₁ e
    | error signal m₁ => exact List.suffix_refl _

/-- What follows may also leave the journal as it is. -/
lemma bind_silent {f : α → Action β} (h : c.Paired (act m) (act' (m.withNotes n)))
    (goes : ∀ a m n, c.near m.notes n → c.Paired (f a m) (f a (m.withNotes n)))
    (silent : ∀ a m, (leaves (f a m)).journal = m.journal) :
    c.Paired ((act >>= f) m) ((act' >>= f) (m.withNotes n)) :=
  h.bind (fun a m₁ n₁ _ => goes a m₁ n₁) fun a m₁ _ => silent a m₁ ▸ List.suffix_refl _

/-- A statement that both runs start. -/
lemma guarded {act act' : Action (Option Value)} (h : c.Paired (act m) (act' (m.withNotes n)))
    (awake : m.interrupted = false) (awake' : n.interrupted = false) (site : Site) :
    c.Paired (Statement.guarded site act m) (Statement.guarded site act' (m.withNotes n)) := by
  have grows := leaves_guarded act' (m.withNotes n) awake' site
  have running : (m.withNotes n).interrupted = false := awake'
  simp only [Statement.guarded, awake, running, Bool.false_eq_true, if_false] at grows ⊢
  generalize act m = ending at h
  generalize act' (m.withNotes n) = ending' at h grows
  cases h with
  | ok near => exact .ok near
  | @error signal m₁ n₁ near =>
    cases signal with
    | returned value => exact .error near
    | failed e =>
      dsimp only
      split
      · obtain ⟨n', e, reported⟩ := report near site e
        rw [e]
        exact .ok reported
      · exact .error near
  | apart parted =>
    simp only [c.apart_fatal parted, Bool.false_eq_true, if_false]
    exact .apart (c.apart_grows parted grows)

/-- A statement outside all functions. -/
lemma walked {act act' : Action (Option Value)} {site : Site}
    (h : c.Paired (Statement.guarded site act m) (Statement.guarded site act' (m.withNotes n))) :
    c.Paired (Statement.walked site act m) (Statement.walked site act' (m.withNotes n)) := by
  have grows := leaves_walked act' (m.withNotes n) site
  simp only [Statement.walked, Run.toAction, Meaning.walkStatement] at grows ⊢
  generalize Statement.guarded site act m = ending at h
  generalize Statement.guarded site act' (m.withNotes n) = ending' at h grows
  cases h with
  | ok near => exact .ok near
  | @error signal m₁ n₁ near =>
    cases signal with
    | returned value =>
      obtain ⟨n', e, reported⟩ := report near site .returnOutsideFunction
      dsimp only
      rw [e]
      exact .ok reported
    | failed e => exact .error near
  | apart parted => exact .apart (c.apart_grows parted grows)

/-- While a script is current. -/
lemma within {script : ScriptId}
    (h : c.Paired (act (m.setCurrent (some script)))
      (act' ((m.setCurrent (some script)).withNotes n))) :
    c.Paired (Run.within script act m) (Run.within script act' (m.withNotes n)) := by
  have same : (m.withNotes n).setCurrent (some script) = (m.setCurrent (some script)).withNotes n :=
    rfl
  simp only [Run.within, same]
  generalize act (m.setCurrent (some script)) = ending at h
  generalize act' ((m.setCurrent (some script)).withNotes n) = ending' at h
  cases h with
  | ok near => exact .ok near
  | error near => exact .error near
  | apart parted =>
    refine .apart ?_
    cases ending' <;> exact parted

/-- One level deeper. -/
lemma nested {run run' : Run α}
    (h : c.Paired (run.toAction { m with depth := m.depth + 1 })
      (run'.toAction (Machine.withNotes { m with depth := m.depth + 1 } n))) :
    c.Paired (run.nested.toAction m) (run'.nested.toAction (m.withNotes n)) := by
  have same : { m.withNotes n with depth := (m.withNotes n).depth + 1 } =
    Machine.withNotes { m with depth := m.depth + 1 } n := rfl
  simp only [toAction_nested, same]
  generalize run.toAction { m with depth := m.depth + 1 } = ending at h
  generalize run'.toAction (Machine.withNotes { m with depth := m.depth + 1 } n) = ending' at h
  cases h with
  | ok near => exact .ok near
  | error near => exact .error near
  | apart parted =>
    refine .apart ?_
    cases ending' <;> exact parted

end Paired

namespace Tracks

variable {start : Notes → Notes → Prop} {act act' : Action α}

/-- Two activities end alike or apart if both the first ones and the second ones do. -/
lemma bind {f f' : α → Action β} (h : c.Tracks left start act act')
    (conducts : Conducts host' (left + c.more) act') (hf : ∀ a, c.Tracks left c.near (f a) (f' a))
    (conducts' : ∀ a, Conducts host' (left + c.more) (f' a)) :
    c.Tracks left start (act >>= f) (act' >>= f') := by
  intro m n hm noted
  -- the second run is as deep afterwards as it was before
  have kept : ∀ a m₁, act' (m.withNotes n) = .ok a m₁ → m₁.depth = m.depth := by
    intro a m₁ e
    have leads := conducts (m.withNotes n) (c.depth_eq n hm)
    rw [← leaves_eq, e] at leads
    exact leads.depth_eq
  refine (h m n hm noted).bind (fun a m₁ n₁ e near => ?_) fun a m₁ e => ?_
  · have depth : m₁.depth = m.depth := kept a (m₁.withNotes n₁) e
    exact hf a m₁ n₁ (depth ▸ hm) near
  · have leads := conducts' a m₁ ((kept a m₁ e).symm ▸ c.depth_eq n hm)
    rw [← leaves_eq] at leads
    exact leads.journal_grows

/-- Statements that end alike or apart do so when they are walked past. -/
lemma walked {act act' : Action (Option Value)} {site : Site}
    (h : c.Tracks left start (Statement.guarded site act) (Statement.guarded site act')) :
    c.Tracks left start (Statement.walked site act) (Statement.walked site act') :=
  fun m n hm noted => (h m n hm noted).walked

/-- Activities that end alike or apart do so inside a script. -/
lemma within {script : ScriptId} (h : c.Tracks left start act act') :
    c.Tracks left start (Run.within script act) (Run.within script act') :=
  fun m n hm noted => (h (m.setCurrent (some script)) n hm noted).within

/-- Activities that end alike or apart do so one level deeper. -/
lemma nested {run run' : Run α} (h : c.Tracks left start run.toAction run'.toAction) :
    c.Tracks (left + 1) start run.nested.toAction run'.nested.toAction := by
  intro m n hm noted
  exact (h { m with depth := m.depth + 1 } n (by dsimp only; omega) noted).nested

end Tracks

/-! ### The evaluator -/

/-- What two levels can start ends alike or apart. -/
structure Levels (c : Comparison host host') (left : Nat) (level level' : Level) : Prop where
  call : ∀ f args, c.Tracks left c.ready (level.call f args).toAction (level'.call f args).toAction
  load : ∀ name text,
    c.Tracks left c.ready (level.load name text).toAction (level'.load name text).toAction

/-- What some nodes do in two runs ends alike or apart. -/
structure Meanings (c : Comparison host host') (left : Nat) (meaning meaning' : Meaning) :
    Prop where
  statement : c.Tracks left c.ready meaning.statement meaning'.statement
  block : ∀ bracket, c.Tracks left c.near (meaning.block bracket) (meaning'.block bracket)
  walk : c.Tracks left c.near meaning.walk.toAction meaning'.walk.toAction

variable {level level' : Level} {behind behind' : Meaning}

/-- Native code is called by both runs with the same text and gives the same answer. -/
lemma native (ready : c.ready m.notes n) (code : Native) (source : Text) (out : Option Text)
    (site : Site) :
    c.Paired (Statement.performNative code source out site m)
      (Statement.performNative (c.adapt code) source out site (m.withNotes n)) := by
  have sources : (m.withNotes n).nativeSources = m.nativeSources := c.sources_eq ready
  have near := c.called code source ready
  rw [← m.notes_logNative] at near
  simp only [Statement.performNative, sources, c.result_eq]
  rw [m.withNotes_logNative n source (code.invoke m.nativeSources source)]
  cases (code.invoke m.nativeSources source).result with
  | ok text => exact .effect (Machine.assignResult_silent site out _) _ near
  | error reason => exact .error near

/-- Carrying out a statement that was read. -/
lemma perform (hl : c.Levels left level level') (hb : c.Meanings left behind behind')
    (hm : m.depth + left = host.depthLimit) (ready : c.ready m.notes n) (site : Site)
    (s : Statement) :
    c.Paired (s.perform level behind site m)
      ((s.adapt c.adapt).perform level' behind' site (m.withNotes n)) := by
  have near := c.near_of_ready ready
  cases s with
  | nothing => exact .ok near
  | print line =>
    have printed : c.ready (m.log (.printed line)).notes _ := c.printed line ready
    exact .ok (c.near_of_ready printed)
  | declare name text => exact .effect (Machine.bind_silent name text (m.scopeOf site)) none near
  | define f => exact .ok near
  | give value => exact .error near
  | giveNext word =>
    refine (hb.statement m n hm ready).bind_silent (fun result m n near => ?_) fun result m => ?_
    · cases result <;> exact .error near
    · cases result <;> rfl
  | call f args out =>
    refine (hl.call f args m n hm ready).bind_silent (fun result m n near => ?_) fun result m => ?_
    · exact .effect (Machine.assignResult_silent site out result) result near
    · have silent := (Machine.assignResult_silent site out result).notes_eq m
      exact congrArg Notes.journal silent
  | branch holds body =>
    cases holds with
    | false => exact .ok near
    | true => exact (hb.block body m n hm near).bind_silent (fun _ _ _ => .ok) fun _ _ => rfl
  | compare holds => exact .ok near
  | edit address text => exact .effect (Machine.edit_silent address text .follow) none near
  | read out text => exact .effect (Machine.assign_silent site out text .overwrite) _ near
  | load name source =>
    exact (hl.load name source m n hm ready).bind_silent (fun _ _ _ => .ok) fun _ _ => rfl
  | exportAll => exact .ok near
  | native code source out => exact native ready code source out site

/-- Reading and carrying out a statement. -/
lemma evalAt (hl : c.Levels left level level') (hb : c.Meanings left behind behind') (site : Site) :
    c.Tracks left c.ready (Statement.evalAt host level behind site)
      (Statement.evalAt host' level' behind' site) := by
  intro m n hm ready
  have began : c.ready (m.log (.began site m.store.current m.depth)).notes _ :=
    c.began site m.store.current m.depth ready
  have same :
      (m.withNotes n).log (.began site (m.withNotes n).store.current (m.withNotes n).depth) =
        (m.log (.began site m.store.current m.depth)).withNotes
          (n.log (.began site m.store.current m.depth)) := rfl
  simp only [Statement.evalAt, same, Statement.readAt_withNotes c.loader_eq c.native_eq]
  cases Statement.readAt host (m.log (.began site m.store.current m.depth)) site with
  | error e => exact .error (c.near_of_ready began)
  | ok s => exact perform hl hb (m := m.log _) hm began site s

/-- A statement of a block or script. The first run does not start it after an interrupt, and is
apart as soon as the second one has begun. -/
lemma guarded (hl : c.Levels left level level') (hb : c.Meanings left behind behind')
    (hl' : level'.Conducts host' (left + c.more)) (hb' : behind'.Conducts host' (left + c.more))
    (site : Site) :
    c.Tracks left c.near (Statement.guarded site (Statement.evalAt host level behind site))
      (Statement.guarded site (Statement.evalAt host' level' behind' site)) := by
  intro m n hm near
  have stopped : ∀ {host level behind m}, m.interrupted = true →
      Statement.guarded site (Statement.evalAt host level behind site) m =
        .error (.failed .interrupted) m := by
    intro host level behind m asked
    simp only [Statement.guarded, asked, if_true]
  obtain ready | ⟨asked, awake, parts⟩ := c.stops near
  · have same : n.interrupted = m.interrupted := c.interrupted_eq ready
    cases asked : m.interrupted with
    | true =>
      rw [stopped asked, stopped (m := m.withNotes n) (same.trans asked)]
      exact .error near
    | false => exact (evalAt hl hb site m n hm ready).guarded asked (same.trans asked) site
  · -- only the first run was asked to stop, and the second one begins the statement
    rw [stopped asked]
    have begun := evalAt_begins hl' hb' site (m.withNotes n) (c.depth_eq n hm)
    exact .apart (parts _ _ _ (begun.trans (leaves_guarded _ _ awake site)))

/-- A statement and the nodes behind it end alike or apart if the level and these nodes do. -/
lemma cons (hl : c.Levels left level level') (hb : c.Meanings left behind behind')
    (hl' : level'.Conducts host' (left + c.more)) (hb' : behind'.Conducts host' (left + c.more))
    (site : Site) (shape : Shape) :
    c.Meanings left (Meaning.cons host level site shape behind)
      (Meaning.cons host' level' site shape behind') where
  statement := evalAt hl hb site
  block bracket := by
    by_cases h : shape.kind = .keyword ∧ shape.parent = some bracket
    · simp only [Meaning.cons, if_pos h]
      exact (guarded hl hb hl' hb' site).bind ((evalAt_conducts hl' hb' site).guarded site)
        (fun _ => hb.block bracket) fun _ => hb'.block bracket
    · simp only [Meaning.cons, if_neg h]
      exact hb.block bracket
  walk := by
    intro m n hm near
    have walked := (guarded hl hb hl' hb' site).walked.bind
      ((evalAt_conducts hl' hb' site).walkStatement site).toAction
      (fun _ => hb.walk) (fun _ => hb'.walk.toAction) m n hm near
    have same : (m.withNotes n).nodes site.script = m.nodes site.script := rfl
    rw [cons_walk, cons_walk, same]
    split
    · exact walked
    · exact hb.walk m n hm near

/-- The nodes of a script from an index on. -/
lemma ofShapes (hl : c.Levels left level level') (hl' : level'.Conducts host' (left + c.more))
    (script : ScriptId) (index : Nat) (shapes : List Shape) :
    c.Meanings left (Meaning.ofShapes host level script index shapes)
      (Meaning.ofShapes host' level' script index shapes) := by
  induction shapes generalizing index with
  | nil =>
    constructor
    · exact fun m n _ ready => .error (c.near_of_ready ready)
    · exact fun bracket m n _ near => .ok near
    · exact fun m n _ near => .ok near
  | cons shape shapes ih =>
    have conducts := ofShapes_conducts hl' script (index + 1) shapes
    exact cons hl (ih (index + 1)) hl' conducts ⟨script, index⟩ shape

/-- The run of a function. -/
lemma function (hl : c.Levels left level level') (hl' : level'.Conducts host' (left + c.more))
    (f : Function) (args : List Text) :
    c.Tracks left c.near (Run.function host level f args).toAction
      (Run.function host' level' f args).toAction := by
  intro m n hm near
  have body : c.Tracks left c.near
      (Run.within f.owner fun m => (Meaning.ofScript host level f.owner m).block f.body m)
      (Run.within f.owner fun m => (Meaning.ofScript host' level' f.owner m).block f.body m) := by
    refine .within fun m n hm near => ?_
    exact (ofShapes hl hl' f.owner 0 _).block f.body m n hm near
  have silent := Machine.bindArguments_silent f args
  have bound := body (m.bindArguments f args) n (by rwa [Machine.depth_bindArguments])
    ((silent.notes_eq m).symm ▸ near)
  simp only [Run.toAction, Run.function, silent m n]
  generalize (Run.within f.owner fun m => (Meaning.ofScript host level f.owner m).block f.body m :
    Action Unit) (m.bindArguments f args) = ending at bound
  generalize (Run.within f.owner fun m => (Meaning.ofScript host' level' f.owner m).block f.body m :
    Action Unit) ((m.bindArguments f args).withNotes n) = ending' at bound
  cases bound with
  | ok near => exact .ok near
  | @error signal m₁ n₁ near =>
    cases signal with
    | returned value => exact .ok near
    | failed e => exact .error near
  | apart parted =>
    refine .apart ?_
    cases ending' with
    | ok _ m₂ => exact parted
    | error signal m₂ => cases signal <;> exact parted

/-- The run of a script that was loaded. -/
lemma script (hl : c.Levels left level level') (hl' : level'.Conducts host' (left + c.more))
    (id : ScriptId) :
    c.Tracks left c.near (Run.script host level id).toAction
      (Run.script host' level' id).toAction := by
  have walk : c.Tracks left c.near
      (Run.within id fun m => (Meaning.ofScript host level id m).walk.toAction m)
      (Run.within id fun m => (Meaning.ofScript host' level' id m).walk.toAction m) := by
    refine .within fun m n hm near => ?_
    exact (ofShapes hl hl' id 0 _).walk m n hm near
  simpa only [toAction_script] using walk

/-- The run of a source under a new name. -/
lemma source_of_new (hl : c.Levels left level level') (hl' : level'.Conducts host' (left + c.more))
    (hm : m.depth + left = host.depthLimit) {name text : Text} {id store}
    (new : m.store.insert? name (Nodes.ofSource text) = some (id, store))
    (near : c.near (m.notes.log (.loaded name)) (n.log (.loaded name))) :
    c.Paired ((Run.source host level name text).toAction m)
      ((Run.source host' level' name text).toAction (m.withNotes n)) := by
  have new' : (m.withNotes n).store.insert? name (Nodes.ofSource text) = some (id, store) := new
  have ran : c.Paired ((Run.script host level id).toAction
        ({ m with store }.log (.loaded name)).substituteAll)
      ((Run.script host' level' id).toAction
        (({ m with store }.log (.loaded name)).substituteAll.withNotes (n.log (.loaded name)))) :=
    script hl hl' id _ _ hm near
  have same : ({ m.withNotes n with store }.log (.loaded name)).substituteAll =
    ({ m with store }.log (.loaded name)).substituteAll.withNotes (n.log (.loaded name)) := rfl
  simp only [toAction_source, new, new', same]
  generalize (Run.script host level id).toAction _ = ending at ran
  generalize (Run.script host' level' id).toAction _ = ending' at ran
  cases ran with
  | ok near => exact .ok near
  | error near => exact .error near
  | apart parted =>
    refine .apart ?_
    cases ending' <;> exact parted

/-- The run of a source. -/
lemma source (hl : c.Levels left level level') (hl' : level'.Conducts host' (left + c.more))
    (name text : Text) :
    c.Tracks left c.ready (Run.source host level name text).toAction
      (Run.source host' level' name text).toAction := by
  intro m n hm ready
  cases new : m.store.insert? name (Nodes.ofSource text) with
  | none =>
    have new' : (m.withNotes n).store.insert? name (Nodes.ofSource text) = none := new
    simp only [toAction_source, new, new']
    exact .error (c.near_of_ready ready)
  | some added => exact source_of_new hl hl' hm new (c.near_of_ready (c.loaded name ready))

/-- Whatever can be started with so many levels left. -/
lemma ofLeft (c : Comparison host host') (left : Nat) :
    c.Levels left (.ofLeft host left) (.ofLeft host' (left + c.more)) := by
  induction left with
  | zero =>
    -- the second run goes deeper if it can, and is refused just the same if it cannot
    have refuse : ∀ {α : Type} {run' : Run α}, (c.more = 0 → run' = Run.refuse host') →
        c.Tracks 0 c.ready (Run.refuse host : Run α).toAction run'.toAction := by
      intro α run' refused m n hm ready
      obtain none | some := Nat.eq_zero_or_pos c.more
      · have limit : host'.depthLimit = host.depthLimit := by rw [c.limit_eq, none, Nat.add_zero]
        rw [refused none]
        simp only [Run.toAction, Run.refuse, limit]
        exact .error (c.near_of_ready ready)
      · exact .apart (c.refuses some _ _ _ _)
    constructor
    · exact fun f args => refuse fun none => by rw [none]; rfl
    · exact fun name text => refuse fun none => by rw [none]; rfl
  | succ left ih =>
    have conducts := ofLeft_conducts host' (left + c.more)
    rw [Nat.succ_add]
    constructor
    · refine fun f args => .nested fun m n hm ready => ?_
      exact function ih conducts f args m n hm (c.near_of_ready ready)
    · exact fun name text => .nested (source ih conducts name text)

/-- The runs of a host: they have the same result and leave machines that are alike, or they are
apart. -/
lemma Paired.run {run run' : Run α}
    (h : c.Paired (run.toAction m) (run'.toAction (m.withNotes n))) :
    (∃ result m₁ n₁, m.run run = (result, m₁) ∧
      (m.withNotes n).run run' = (result, m₁.withNotes n₁) ∧ c.near m₁.notes n₁) ∨
    ∃ e m₁, m.run run = (.error e, m₁) ∧
      c.apart e m₁.journal ((m.withNotes n).run run').2.journal := by
  simp only [Run.toAction, Machine.run] at h ⊢
  generalize run m = ending at h
  generalize run' (m.withNotes n) = ending' at h
  cases ending with
  | ok a m₁ =>
    cases ending' with
    | ok a' m₂ =>
      cases h with
      | ok near => exact .inl ⟨_, _, _, rfl, rfl, near⟩
    | error e m₂ => cases h
  | error e m₁ =>
    cases ending' with
    | ok a m₂ =>
      cases h with
      | apart parted => exact .inr ⟨e, m₁, rfl, parted⟩
    | error e' m₂ =>
      cases h with
      | error near => exact .inl ⟨_, _, _, rfl, rfl, near⟩
      | apart parted => exact .inr ⟨e, m₁, rfl, parted⟩

/-- The run of a source by the hosts. -/
lemma runSource (c : Comparison host host') (hm : m.depth = 0) (name text : Text)
    (noted : c.ready m.notes n) :
    (∃ result m₁ n₁, m.runSource host name text = (result, m₁) ∧
      (m.withNotes n).runSource host' name text = (result, m₁.withNotes n₁) ∧
      c.near m₁.notes n₁) ∨
    ∃ e m₁, m.runSource host name text = (.error e, m₁) ∧
      c.apart e m₁.journal ((m.withNotes n).runSource host' name text).2.journal := by
  have levels := c.ofLeft host.depthLimit
  have conducts := ofLeft_conducts host' (host.depthLimit + c.more)
  have paired := source levels conducts name text m n (by omega) noted
  simpa only [Machine.runSource, Level.outermost, c.limit_eq] using paired.run

end Comparison

end Sigil
