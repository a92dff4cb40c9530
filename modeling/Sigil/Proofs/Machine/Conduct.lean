import Mathlib.Tactic.Common
import Sigil.Machine.Run
import Sigil.Proofs.Machine.Frame
import Sigil.Proofs.Machine.Reading

/-!
# What running makes of a machine

`Leads` is everything that running can do to a machine, with the order of the doings left open: it
has one rule for each change that a statement makes, one for activities in which another script is
current, and one for activities one level deeper. `source_leads` says that a run does nothing else.
The proof goes through the evaluator once, node by node (`ofShapes_conducts`) and level by level
(`ofLeft_conducts`). What running keeps is afterwards proved by induction on `Leads` alone.

The first facts of this kind are here: an activity leaves the depth and the current script as they
were, and the outlines of the scripts that it found.

`Reachable` are the machines that runs started by the host leave behind, and `Visited` those that
are met on the way, in the middle of a run.
-/

namespace Sigil

/-- The scopes that statements and calls declare into. -/
inductive Machine.Declares (m : Machine) : Scope → Prop where
  | statement (site : Site) :
    m.Declares (m.scopeOf site)
  | call {name f} :
    m.symbols.function? name = some f →
    m.Declares (.bracket f.owner f.body)

/-- What running can make of a machine. -/
inductive Leads (host : Host) : Machine → Machine → Prop where
  | refl {m} :
    Leads host m m
  | trans {a b c} :
    Leads host a b →
    Leads host b c →
    Leads host a c
  | began {m} (site : Site) :
    Leads host m (m.log (.began site m.store.current m.depth))
  | printed {m} (line : Text) :
    Leads host m (m.log (.printed line))
  | reported {m} (site : Site) {e : Error} :
    e.isRecoverable = true →
    Leads host m (m.report site e)
  | called {m} (source : Text) (reply : Reply) :
    Leads host m (m.logNative source reply)
  | bound {m scope} (name text : Text) :
    m.Declares scope →
    Leads host m (m.bind name text scope)
  | assigned {m} (site : Site) (name text : Text) (p : Propagation) :
    Leads host m (m.assign site name text p)
  | edited {m} (address : Address) (text : Text) :
    Leads host m (m.update address text .follow).substituteAll
  | defined {m site f} :
    Statement.DeclaredAt m site f →
    Leads host m (m.define f)
  | exported {m} (site : Site) :
    Leads host m (m.exportAll site)
  | loaded {m : Machine} {name source id store} :
    m.store.insert? name (Nodes.ofSource source) = some (id, store) →
    Leads host m ({ m with store }.log (.loaded name)).substituteAll
  | within {m m'} (script : ScriptId) :
    Leads host (m.setCurrent (some script)) m' →
    Leads host m (m'.setCurrent m.store.current)
  | nested {m m'} :
    m.depth < host.depthLimit →
    Leads host { m with depth := m.depth + 1 } m' →
    Leads host m { m' with depth := m'.depth - 1 }

namespace Leads

variable {host : Host} {m m' : Machine}

/-- Activities leave the depth and the current script as they were. -/
lemma place_eq (h : Leads host m m') :
    m'.depth = m.depth ∧ m'.store.current = m.store.current := by
  -- changes of variables keep the whole frame, of which these are two parts
  have framed : ∀ {a b : Machine}, b.frame = a.frame →
      b.depth = a.depth ∧ b.store.current = a.store.current := by
    intro a b e
    exact ⟨congrArg (·.2.1) e, congrArg (·.1) e⟩
  induction h with
  | refl => exact ⟨rfl, rfl⟩
  | trans _ _ ih ih' => exact ⟨ih'.1.trans ih.1, ih'.2.trans ih.2⟩
  | began => exact ⟨rfl, rfl⟩
  | printed => exact ⟨rfl, rfl⟩
  | reported => exact ⟨rfl, rfl⟩
  | @called m source reply =>
    obtain ⟨_, _, e⟩ := m.logNative_cases source reply
    rw [e]
    exact ⟨rfl, rfl⟩
  | @bound m scope name text _ => exact framed (m.frame_bind name text scope)
  | @assigned m site name text p => exact framed (m.frame_assign site name text p)
  | @edited m address text => exact framed (m.frame_update address text .follow)
  | defined => exact ⟨rfl, rfl⟩
  | exported => exact ⟨rfl, rfl⟩
  | loaded new =>
    obtain ⟨_, _, rfl⟩ := Store.insert_inv new
    exact ⟨rfl, rfl⟩
  | within _ _ ih => exact ⟨ih.1, rfl⟩
  | nested _ _ ih =>
    refine ⟨?_, ih.2⟩
    -- the level that was entered is left again
    have entered := ih.1
    dsimp only at entered ⊢
    omega

/-- Between two machines that a run leads through, the depth is the same. -/
lemma depth_eq (h : Leads host m m') : m'.depth = m.depth :=
  h.place_eq.1

/-- Activities leave the outlines of the scripts that were there as they were. -/
lemma outlines_grow (h : Leads host m m') : m.store.outlines <+: m'.store.outlines := by
  induction h with
  | refl => exact List.prefix_refl _
  | trans _ _ ih ih' => exact ih.trans ih'
  | began => exact List.prefix_refl _
  | printed => exact List.prefix_refl _
  | reported => exact List.prefix_refl _
  | @called m source reply =>
    obtain ⟨_, _, e⟩ := m.logNative_cases source reply
    exact e ▸ List.prefix_refl _
  | bound => simp
  | assigned => simp
  | edited => simp
  | defined => exact List.prefix_refl _
  | exported => simp
  | loaded new =>
    obtain ⟨_, _, rfl⟩ := Store.insert_inv new
    rw [Machine.outlines_substituteAll]
    simp only [Machine.log, Store.outlines, List.map_append]
    exact List.prefix_append _ _
  | within _ _ ih => exact ih
  | nested _ _ ih => exact ih

end Leads

/-! ### Activities -/

/-- The machine that an activity leaves behind. -/
def after {ε α : Type} (act : EStateM ε Machine α) (m : Machine) : Machine :=
  match act m with
  | .ok _ m' => m'
  | .error _ m' => m'

/-- With so many levels left, the activity does nothing but what running can do. -/
def Conducts {ε α : Type} (host : Host) (left : Nat) (act : EStateM ε Machine α) : Prop :=
  ∀ m, m.depth + left = host.depthLimit → Leads host m (after act m)

namespace Conducts

variable {ε α β : Type} {host : Host} {left : Nat}

/-- To give a value does nothing. -/
lemma pure (a : α) : Conducts host left (Pure.pure a : EStateM ε Machine α) :=
  fun _ _ => .refl

/-- To stop does nothing. -/
lemma throw (e : ε) : Conducts host left (MonadExcept.throw e : EStateM ε Machine α) :=
  fun _ _ => .refl

/-- Two activities, the second depending on the value of the first, do no more than each of them. -/
lemma bind {x : EStateM ε Machine α} {f : α → EStateM ε Machine β} (hx : Conducts host left x)
    (hf : ∀ a, Conducts host left (f a)) : Conducts host left (x >>= f) := by
  intro m hm
  have first := hx m hm
  unfold after at first ⊢
  simp only [Bind.bind, EStateM.bind]
  cases e : x m with
  | error _ m' => simpa [e] using first
  | ok a m' =>
    simp only [e] at first ⊢
    exact first.trans (hf a m' (first.depth_eq ▸ hm))

/-- A change of the machine that is allowed. -/
lemma effect {change : Machine → Machine} (result : Option Value)
    (h : ∀ m, Leads host m (change m)) : Conducts host left (Statement.effect change result) :=
  fun m _ => h m

/-- As an action of a statement, a run does what it does. -/
lemma toAction {run : Run α} (h : Conducts host left run) : Conducts host left run.toAction := by
  intro m hm
  have leads := h m hm
  unfold after Run.toAction at *
  cases e : run m <;> simpa [e] using leads

/-- The current script changes for a while. -/
lemma within {act : EStateM ε Machine α} (h : Conducts host left act) (script : ScriptId) :
    Conducts host left (Run.within script act) := by
  intro m hm
  have leads := (h (m.setCurrent (some script)) hm).within script
  unfold after Run.within at *
  cases e : act (m.setCurrent (some script)) <;> simpa [e] using leads

/-- One level less is left inside. -/
lemma nested {run : Run α} (h : Conducts host left run) :
    Conducts host (left + 1) run.nested := by
  intro m hm
  have leads := Leads.nested (by omega) (h { m with depth := m.depth + 1 } (by dsimp only; omega))
  unfold after Run.nested at *
  cases e : run { m with depth := m.depth + 1 } <;> simpa [e] using leads

/-- A guarded statement may be reported. -/
lemma guarded {act : Action (Option Value)} (h : Conducts host left act) (site : Site) :
    Conducts host left (Statement.guarded site act) := by
  intro m hm
  by_cases hi : m.interrupted = true
  · have e : after (Statement.guarded site act) m = m := by simp [after, Statement.guarded, hi]
    rw [e]
    exact .refl
  have leads := h m hm
  cases e : act m with
  | ok _ m' => simpa [after, Statement.guarded, hi, e] using leads
  | error signal m' =>
    simp only [after, e] at leads
    cases signal with
    | returned value => simpa [after, Statement.guarded, hi, e] using leads
    | failed error =>
      by_cases hr : error.isRecoverable = true
      · simpa [after, Statement.guarded, hi, e, hr] using leads.trans (.reported site hr)
      · simpa [after, Statement.guarded, hi, e, hr] using leads

/-- To walk past a statement does no more than the statement. -/
lemma walkStatement {act : Action (Option Value)} (h : Conducts host left act) (site : Site) :
    Conducts host left (Meaning.walkStatement site act) := by
  intro m hm
  have leads := h.guarded site m hm
  unfold after Meaning.walkStatement at *
  cases e : Statement.guarded site act m with
  | ok _ m' => simpa [e] using leads
  | error signal m' =>
    simp only [e] at leads
    cases signal with
    | returned value => exact leads.trans (.reported site rfl)
    | failed error => exact leads

end Conducts

/-! ### The evaluator -/

/-- What a level can start does nothing but what running can do. -/
structure Level.Conducts (host : Host) (left : Nat) (level : Level) : Prop where
  call : ∀ {m : Machine} {name f}, m.symbols.function? name = some f →
    m.depth + left = host.depthLimit → ∀ args, Leads host m (after (level.call f args) m)
  load : ∀ name text, Sigil.Conducts host left (level.load name text)

/-- What some nodes mean does nothing but what running can do. -/
structure Meaning.Conducts (host : Host) (left : Nat) (meaning : Meaning) : Prop where
  statement : Sigil.Conducts host left meaning.statement
  block : ∀ bracket, Sigil.Conducts host left (meaning.block bracket)
  walk : Sigil.Conducts host left meaning.walk

section
variable {host : Host} {left : Nat} {level : Level} {behind : Meaning}

/-- The result of a statement may be stored. -/
lemma assignResult_leads (m : Machine) (site : Site) (out : Option Text) (result : Option Value) :
    Leads host m (m.assignResult site out result) := by
  cases out with
  | none => exact .refl
  | some name =>
    cases result with
    | none => exact .refl
    | some value => exact .assigned site name value.toText .follow

/-- Carrying out a statement that was read. -/
lemma perform_leads (hl : level.Conducts host left) (hb : behind.Conducts host left) {m : Machine}
    {site : Site} {s : Statement} (hm : m.depth + left = host.depthLimit)
    (known : s.Known host m site) :
    Leads host m (after (Statement.perform level behind site s) m) := by
  cases s with
  | nothing => exact .refl
  | print line => exact .printed line
  | declare name text => exact .bound name text (.statement site)
  | define f => exact .defined known
  | give value => exact .refl
  | giveNext word =>
    refine hb.statement.bind (fun result => ?_) m hm
    cases result with
    | none => exact .throw _
    | some value => exact .throw _
  | call f args out =>
    -- a call declares into the block of its function, so the function has to be known
    obtain ⟨name, hf⟩ := known
    have leads := hl.call hf hm args
    simp only [after, Statement.perform, Bind.bind, EStateM.bind, Run.toAction] at leads ⊢
    cases e : level.call f args m with
    | error _ m' => simpa [e] using leads
    | ok result m' =>
      simp only [e] at leads ⊢
      exact leads.trans (assignResult_leads m' site out result)
  | branch holds body =>
    cases holds with
    | false => exact .refl
    | true => exact (hb.block body).bind (fun _ => .pure _) m hm
  | compare holds => exact .refl
  | edit address text => exact .edited address text
  | read out text => exact .assigned site out text .overwrite
  | load name source => exact (hl.load name source).toAction.bind (fun _ => .pure _) m hm
  | exportAll => exact .exported site
  | native code source out =>
    have called : Leads host m _ := .called source (code.invoke m.nativeSources source)
    simp only [after, Statement.perform, Statement.performNative]
    cases e : (code.invoke m.nativeSources source).result with
    | error reason => exact called
    | ok text => exact called.trans (assignResult_leads _ site out (some (.text text)))

/-- Reading and carrying out a statement. -/
lemma evalAt_conducts (hl : level.Conducts host left) (hb : behind.Conducts host left)
    (site : Site) : Conducts host left (Statement.evalAt host level behind site) := by
  intro m hm
  have began : Leads host m _ := .began site
  simp only [after, Statement.evalAt]
  cases e : Statement.readAt host (m.log (.began site m.store.current m.depth)) site with
  | error error => exact began
  | ok s =>
    have known := Statement.readAt_inv e
    exact began.trans (perform_leads hl hb hm known)

/-- A statement in front of others does nothing else if neither the level below nor the others
do. -/
lemma cons_conducts (hl : level.Conducts host left) (hb : behind.Conducts host left) (site : Site)
    (shape : Shape) : (Meaning.cons host level site shape behind).Conducts host left where
  statement := evalAt_conducts hl hb site
  block bracket := by
    refine iteInduction (fun _ => ?_) fun _ => hb.block bracket
    exact ((evalAt_conducts hl hb site).guarded site).bind fun _ => hb.block bracket
  walk := by
    intro m hm
    have walked := ((evalAt_conducts hl hb site).walkStatement site).bind (fun _ => hb.walk) m hm
    by_cases h : shape.kind = .keyword ∧ Nodes.withinBlock (m.nodes site.script) site.index = false
    · simpa only [after, Meaning.cons, if_pos h] using walked
    · simpa only [after, Meaning.cons, if_neg h] using hb.walk m hm

/-- Where no statements are left, nothing is done. -/
lemma nil_conducts : Meaning.nil.Conducts host left where
  statement := .throw _
  block _ := .pure ()
  walk := .pure ()

/-- The statements of a list of shapes do nothing but what running can do. -/
lemma ofShapes_conducts (hl : level.Conducts host left) (script : ScriptId) (index : Nat)
    (shapes : List Shape) :
    (Meaning.ofShapes host level script index shapes).Conducts host left := by
  induction shapes generalizing index with
  | nil => exact nil_conducts
  | cons shape shapes ih => exact cons_conducts hl (ih (index + 1)) ⟨script, index⟩ shape

/-- A script does nothing but what running can do. -/
lemma ofScript_conducts (hl : level.Conducts host left) (script : ScriptId) (m : Machine) :
    (Meaning.ofScript host level script m).Conducts host left :=
  ofShapes_conducts hl script 0 _

/-- The binding of arguments. -/
lemma bindArguments_leads {m : Machine} {name f} (hf : m.symbols.function? name = some f)
    (args : List Text) :
    Leads host m (m.bindArguments f args) ∧
      (m.bindArguments f args).symbols.function? name = some f := by
  unfold Machine.bindArguments
  induction f.params.zip args generalizing m with
  | nil => exact ⟨.refl, hf⟩
  | cons pair pairs ih =>
    have bound : Leads host m _ := .bound (f.name ++ ".args.".toList ++ pair.1) pair.2 (.call hf)
    obtain ⟨leads, hf'⟩ := ih ((m.function_bind _ _ _ name).trans hf)
    exact ⟨bound.trans leads, hf'⟩

/-- The run of a function. -/
lemma function_leads (hl : level.Conducts host left) {m : Machine} {name f}
    (hf : m.symbols.function? name = some f) (hm : m.depth + left = host.depthLimit)
    (args : List Text) : Leads host m (after (Run.function host level f args) m) := by
  have bound : Leads host m (m.bindArguments f args) := (bindArguments_leads hf args).1
  have body : Conducts host left (Run.within f.owner fun m =>
      (Meaning.ofScript host level f.owner m).block f.body m : Action Unit) := by
    refine .within (fun m hm => ?_) f.owner
    exact (ofScript_conducts hl f.owner m).block f.body m hm
  have leads := bound.trans (body (m.bindArguments f args) (bound.depth_eq ▸ hm))
  simp only [after, Run.function] at leads ⊢
  cases e : (Run.within f.owner fun m => (Meaning.ofScript host level f.owner m).block f.body m :
    Action Unit) (m.bindArguments f args) with
  | ok _ m' => simpa [e] using leads
  | error signal m' =>
    simp only [e] at leads
    cases signal <;> exact leads

/-- The run of a source. -/
lemma source_conducts (hl : level.Conducts host left) (name text : Text) :
    Conducts host left (Run.source host level name text) := by
  intro m hm
  simp only [after, Run.source]
  cases new : m.store.insert? name (Nodes.ofSource text) with
  | none => exact .refl
  | some added =>
    obtain ⟨id, store⟩ := added
    have loaded : Leads host m _ := .loaded new
    have script : Conducts host left (Run.script host level id) := by
      refine .within (fun m hm => ?_) id
      exact (ofScript_conducts hl id m).walk m hm
    have leads := loaded.trans (script _ hm)
    simp only [after] at leads ⊢
    cases e : Run.script host level id ({ m with store }.log (.loaded name)).substituteAll <;>
      simpa [e] using leads

/-- Whatever can be started with so many levels left. -/
lemma ofLeft_conducts (host : Host) (left : Nat) : (Level.ofLeft host left).Conducts host left := by
  induction left with
  | zero =>
    constructor
    · intro m name f _ _ args
      exact .refl
    · intro name text m _
      exact .refl
  | succ left ih =>
    constructor
    · intro m name f hf hm args
      have leads := Leads.nested (by omega)
        (function_leads ih (m := { m with depth := m.depth + 1 }) hf (by dsimp only; omega) args)
      simp only [Level.ofLeft, after, Run.nested] at leads ⊢
      cases e : Run.function host (.ofLeft host left) f args { m with depth := m.depth + 1 } <;>
        simpa [e] using leads
    · intro name text
      exact (source_conducts ih name text).nested

end

/-- The run of a source by the host. -/
lemma source_leads {host : Host} {m : Machine} (hm : m.depth = 0) (name text : Text) :
    Leads host m (m.runSource host name text).2 := by
  have leads := source_conducts (ofLeft_conducts host host.depthLimit) name text m (by omega)
  simp only [after, Machine.runSource, Machine.run, Level.outermost] at leads ⊢
  cases e : Run.source host (.ofLeft host host.depthLimit) name text m <;> simpa [e] using leads

/-- Running a file does nothing but what running can do. -/
lemma file_leads {host : Host} {m : Machine} (hm : m.depth = 0) (name : Text) :
    Leads host m (m.runFile host name).2 := by
  unfold Machine.runFile
  split
  · exact source_leads hm name _
  · exact .refl

/-! ### Machines that can be met -/

/-- The machines that runs leave behind, one after the other, however they end. Each run may have a
host of its own. -/
inductive Reachable : Machine → Prop where
  | start :
    Reachable {}
  | source {m} (host : Host) (name text : Text) :
    Reachable m →
    Reachable (m.runSource host name text).2
  | file {m} (host : Host) (name : Text) :
    Reachable m →
    Reachable (m.runFile host name).2
  | interrupt {m} (interrupted : Bool) :
    Reachable m →
    Reachable (m.setInterrupted interrupted)

/-- The machines that are met in the course of runs: what running can make of one that was met, also
after a script became current or calls became nested more deeply. -/
inductive Visited : Machine → Prop where
  | start :
    Visited {}
  | leads {m m'} {host : Host} :
    Visited m →
    Leads host m m' →
    Visited m'
  | current {m} (script : Option ScriptId) :
    Visited m →
    Visited (m.setCurrent script)
  | deeper {m : Machine} (depth : Nat) :
    Visited m →
    Visited { m with depth }
  | interrupt {m} (interrupted : Bool) :
    Visited m →
    Visited (m.setInterrupted interrupted)

/-- Between runs, nothing is nested. -/
lemma Reachable.depth_eq {m : Machine} (h : Reachable m) : m.depth = 0 := by
  induction h with
  | start => rfl
  | source host name text _ ih => exact (source_leads ih name text).depth_eq.trans ih
  | file host name _ ih => exact (file_leads ih name).depth_eq.trans ih
  | interrupt _ _ ih => exact ih

/-- What is left behind was met. -/
lemma Reachable.visited {m : Machine} (h : Reachable m) : Visited m := by
  induction h with
  | start => exact .start
  | source host name text h ih => exact ih.leads (source_leads h.depth_eq name text)
  | file host name h ih => exact ih.leads (file_leads h.depth_eq name)
  | interrupt interrupted _ ih => exact ih.interrupt interrupted

end Sigil
