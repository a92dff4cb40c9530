import Mathlib.Tactic.Common
import Sigil.Proofs.Machine.Recursion

/-!
# Statements that fail

A statement that fails for a recoverable cause is skipped, so it must not have done anything before.
It has not: whatever can go wrong is found out when the statement is read, and what it starts, a
block, a call or an import, ends with recoverable errors already reported. So the errors of blocks,
scripts, calls and imports are all `Fatal`, and a recoverable one can only come from the reading or
from native code (`perform_unchanged`).

The exception is a return, which carries out the statement behind it first and may then find that it
has no value. It leaves what that statement has left (`eval_return`).
-/

namespace Sigil

/-- The machines have the same records, scripts, depth, output and diagnostics. -/
structure Machine.Unchanged (m m' : Machine) : Prop where
  symbols : m'.symbols = m.symbols
  store : m'.store = m.store
  depth : m'.depth = m.depth
  output : m'.output = m.output
  diagnostics : m'.diagnostics = m.diagnostics

namespace Machine.Unchanged

/-- A machine has not changed from itself. -/
lemma refl (m : Machine) : m.Unchanged m :=
  ⟨rfl, rfl, rfl, rfl, rfl⟩

/-- What has changed nothing twice has changed nothing. -/
lemma trans {a b c : Machine} (h : a.Unchanged b) (h' : b.Unchanged c) : a.Unchanged c where
  symbols := h'.symbols.trans h.symbols
  store := h'.store.trans h.store
  depth := h'.depth.trans h.depth
  output := h'.output.trans h.output
  diagnostics := h'.diagnostics.trans h.diagnostics

/-- An event that is neither a line nor a report does not show. -/
lemma log (m : Machine) (event : Event) (line : event.line? = none)
    (diagnostic : event.diagnostic? = none) : m.Unchanged (m.log event) where
  symbols := rfl
  store := rfl
  depth := rfl
  output := by simp [Machine.output, Machine.log, line]
  diagnostics := by simp [Machine.diagnostics, Machine.log, diagnostic]

/-- A native call that stores nothing does not show. -/
lemma logNative (m : Machine) (source : Text) (reply : Reply) :
    m.Unchanged (m.logNative source reply) := by
  have called := Unchanged.log m (.called source) rfl rfl
  unfold Machine.logNative
  dsimp only
  split
  · refine called.trans (.trans ?_ (Unchanged.log _ .interrupted rfl rfl))
    exact ⟨rfl, rfl, rfl, rfl, rfl⟩
  · exact called

end Machine.Unchanged

/-! ### Fatal errors -/

/-- An activity fails inside a function as it fails on its own. -/
lemma toAction_failed {α : Type} {run : Run α} {m m' : Machine} {e : Error} :
    run.toAction m = .error (.failed e) m' ↔ run m = .error e m' := by
  unfold Run.toAction
  cases run m <;> simp

/-- Of two activities, the first one fails or the second one. -/
lemma bind_failed {α β : Type} {x : Action α} {f : α → Action β} {m m' : Machine} {signal : Signal}
    (h : (x >>= f) m = .error signal m') :
    x m = .error signal m' ∨ ∃ a m₁, x m = .ok a m₁ ∧ f a m₁ = .error signal m' := by
  simp only [Bind.bind, EStateM.bind] at h
  cases hm : x m with
  | ok a m₁ =>
    rw [hm] at h
    exact .inr ⟨a, m₁, rfl, h⟩
  | error _ m₁ =>
    rw [hm] at h
    cases h
    exact .inl rfl

/-- The activity fails only for causes that end the run. -/
def Fatal {α : Type} (act : Action α) : Prop :=
  ∀ ⦃m e m'⦄, act m = .error (.failed e) m' → e.isRecoverable = false

namespace Fatal

variable {α β : Type} {host : Host} {level : Level}

/-- What gives a value does not fail. -/
lemma pure (a : α) : Fatal (Pure.pure a : Action α) := by
  intro m e m' h
  cases h

/-- Two activities fail only for causes that end the run if both do. -/
lemma bind {x : Action α} {f : α → Action β} (hx : Fatal x) (hf : ∀ a, Fatal (f a)) :
    Fatal (x >>= f) := by
  intro m e m' h
  obtain h | ⟨a, _, _, h⟩ := bind_failed h
  · exact hx h
  · exact hf a h

/-- A guarded statement fails only for causes that end the run. -/
lemma guarded (site : Site) (act : Action (Option Value)) : Fatal (Statement.guarded site act) := by
  intro m e m' h
  unfold Statement.guarded at h
  split at h
  · cases h
    rfl
  · split at h
    · cases h
    · cases h
    · split at h
      · cases h
      · rename_i fatal
        cases h
        simpa using fatal

/-- Walking past a statement fails only for causes that end the run. -/
lemma walked (site : Site) (act : Action (Option Value)) : Fatal (Statement.walked site act) := by
  intro m e m' h
  simp only [Statement.walked, Run.toAction, Meaning.walkStatement] at h
  cases hg : Statement.guarded site act m with
  | ok _ m₁ => simp [hg] at h
  | error signal m₁ =>
    cases signal with
    | returned value => simp [hg] at h
    | failed error =>
      simp only [hg] at h
      cases h
      exact guarded site act hg

/-- A block fails only for causes that end the run. -/
lemma block (id : ScriptId) (k : Nat) (shapes : List Shape) (bracket : Nat) :
    Fatal ((Meaning.ofShapes host level id k shapes).block bracket) := by
  induction shapes generalizing k with
  | nil => exact pure ()
  | cons shape shapes ih =>
    refine iteInduction (fun _ => ?_) fun _ => ih (k + 1)
    exact (guarded _ _).bind fun _ => ih (k + 1)

/-- A script fails only for causes that end the run. -/
lemma walk (id : ScriptId) (k : Nat) (shapes : List Shape) :
    Fatal (Meaning.ofShapes host level id k shapes).walk.toAction := by
  induction shapes generalizing k with
  | nil => exact pure ()
  | cons shape shapes ih =>
    intro m e m' h
    rw [Meaning.ofShapes, cons_walk] at h
    split at h
    · exact ((walked _ _).bind fun _ => ih (k + 1)) h
    · exact ih (k + 1) h

/-- What happens while a script is current fails only for causes that end the run. -/
lemma within {act : Action α} (h : Fatal act) (script : ScriptId) :
    Fatal (Run.within script act) := by
  intro m e m' hm
  unfold Run.within at hm
  split at hm
  · cases hm
  · rename_i ha
    cases hm
    exact h ha

/-- A call fails only for causes that end the run. -/
lemma function (f : Function) (args : List Text) :
    Fatal (Run.function host level f args).toAction := by
  have body : Fatal (Run.within f.owner fun m =>
      (Meaning.ofScript host level f.owner m).block f.body m : Action Unit) := by
    refine within (fun m e m' h => ?_) f.owner
    exact block f.owner 0 _ f.body h
  intro m e m' h
  have h := toAction_failed.1 h
  simp only [Run.function] at h
  split at h
  · cases h
  · cases h
  · rename_i ended
    cases h
    exact body ended

/-- The run of a source fails only for causes that end the run. -/
lemma source (name text : Text) : Fatal (Run.source host level name text).toAction := by
  intro m e m' h
  have h := toAction_failed.1 h
  simp only [Run.source] at h
  split at h
  · cases h
    rfl
  · split at h
    · cases h
    · rename_i id _ _ _ _ _ ended
      cases h
      unfold Run.script Run.within at ended
      split at ended
      · cases ended
      · rename_i walked
        cases ended
        exact walk id 0 _ (toAction_failed.2 walked)

/-- What is started one level deeper fails only for causes that end the run. -/
lemma nested {run : Run α} (h : Fatal run.toAction) : Fatal run.nested.toAction := by
  intro m e m' hm
  have hm := toAction_failed.1 hm
  unfold Run.nested at hm
  split at hm
  · cases hm
  · rename_i ended
    cases hm
    exact h (toAction_failed.2 ended)

/-- To be refused a level ends the run. -/
lemma refuse : Fatal (Run.refuse host : Run α).toAction := by
  intro m e m' h
  cases h
  rfl

/-- Whatever can be started fails only for causes that end the run. -/
lemma ofLeft (host : Host) (left : Nat) :
    (∀ f args, Fatal ((Level.ofLeft host left).call f args).toAction) ∧
      ∀ name text, Fatal ((Level.ofLeft host left).load name text).toAction := by
  cases left with
  | zero => exact ⟨fun _ _ => refuse, fun _ _ => refuse⟩
  | succ left =>
    exact ⟨fun f args => (function f args).nested, fun name text => (source name text).nested⟩

end Fatal

/-! ### Recoverable errors -/

/-- The machine in which a statement has begun. -/
def Machine.beginning (m : Machine) (site : Site) : Machine :=
  m.log (.began site m.store.current m.depth)

/-- The site behind a site. -/
def Site.next (site : Site) : Site :=
  ⟨site.script, site.index + 1⟩

/-- The statement at a site, or the one behind a row of returns that begins there, completes without
a value and leaves this machine. -/
inductive Fruitless (host : Host) : Site → Machine → Machine → Prop where
  | here {site m m'} :
    Statement.eval host site m = .ok none m' →
    Fruitless host site m m'
  | behind {site m m'} :
    Keyword.ofText? (m.textAt site) = some .giveBack →
    Fruitless host site.next (m.beginning site) m' →
    Fruitless host site m m'

section
variable {host : Host} {m m' : Machine} {site : Site} {e : Error}

/-- A statement that does not run the one behind it fails for a recoverable cause only in native
code, which changes nothing. -/
lemma perform_unchanged {level : Level} {behind : Meaning} {s : Statement}
    (call : ∀ f args, Fatal (level.call f args).toAction)
    (load : ∀ name text, Fatal (level.load name text).toAction)
    (block : ∀ bracket, Fatal (behind.block bracket)) (ne : ∀ word, s ≠ .giveNext word)
    (h : s.perform level behind site m = .error (.failed e) m') (he : e.isRecoverable = true) :
    m.Unchanged m' := by
  cases s with
  | giveNext word => exact absurd rfl (ne word)
  | call f args out =>
    obtain h | ⟨_, _, _, h⟩ := bind_failed h
    -- if the call itself has failed, it was for a cause that ends the run
    · exact absurd he (by simp [call f args h])
    · cases h
  | branch holds body =>
    cases holds with
    | false => cases h
    | true =>
      obtain h | ⟨_, _, _, h⟩ := bind_failed h
      · exact absurd he (by simp [block body h])
      · cases h
  | load name source =>
    obtain h | ⟨_, _, _, h⟩ := bind_failed h
    · exact absurd he (by simp [load name source h])
    · cases h
  | native code source out =>
    simp only [Statement.perform, Statement.performNative] at h
    split at h
    · cases h
    · cases h
      exact .logNative m source _
  | nothing => cases h
  | print line => cases h
  | declare name text => cases h
  | define f => cases h
  | give value => cases h
  | compare holds => cases h
  | edit address text => cases h
  | read out text => cases h
  | exportAll => cases h

/-- A statement without a node fails at once. -/
lemma eval_of_ge (ge : (m.nodes site.script).length ≤ site.index) :
    Statement.eval host site m = .error (.failed (.unknownKeyword [])) m := by
  have none : (m.shapes site.script).drop site.index = [] := by
    simpa [Machine.shapes] using ge
  rw [Statement.eval, none]
  rfl

/-- A statement other than a return that fails for a recoverable cause changes nothing. -/
lemma eval_unchanged (ne : Keyword.ofText? (m.textAt site) ≠ some .giveBack)
    (h : Statement.eval host site m = .error (.failed e) m') (he : e.isRecoverable = true) :
    m.Unchanged m' := by
  rcases Nat.lt_or_ge site.index (m.nodes site.script).length with lt | ge
  · have began := Machine.Unchanged.log m (.began site m.store.current m.depth) rfl rfl
    rw [Statement.eval_eq lt] at h
    simp only [Statement.evalAt] at h
    split at h
    · rename_i s read
      have fatal := Fatal.ofLeft host (host.depthLimit - m.depth)
      refine began.trans (perform_unchanged fatal.1 fatal.2 (Fatal.block _ _ _) ?_ h he)
      rintro word rfl
      exact ne (Statement.readAt_giveNext read)
    · cases h
      exact began
  · rw [eval_of_ge ge] at h
    cases h
    exact .refl m

/-- A return that fails finds nothing behind it, or fails as the statement behind it does, or that
has no value. -/
lemma eval_return (hk : Keyword.ofText? (m.textAt site) = some .giveBack)
    (h : Statement.eval host site m = .error (.failed e) m') :
    (m.nodes site.script)[site.index + 1]? = none ∧ m' = m.beginning site ∨
    ∃ node, (m.nodes site.script)[site.index + 1]? = some node ∧ node.kind = .keyword ∧
      (Statement.eval host site.next (m.beginning site) = .ok none m' ∨
        Statement.eval host site.next (m.beginning site) = .error (.failed e) m') := by
  have lt : site.index < (m.nodes site.script).length := by
    by_contra ge
    have none : m.textAt site = [] := by
      simp [Machine.textAt, List.getElem?_eq_none (Nat.le_of_not_lt ge)]
    rw [none] at hk
    cases hk
  have read : Statement.readAt host (m.beginning site) site =
      Statement.readReturn (m.beginning site) site := by
    have hk' : Keyword.ofText? ((m.beginning site).textAt site) = some .giveBack := hk
    simp only [Statement.readAt, hk']
    rfl
  rw [Statement.eval_eq lt] at h
  unfold Machine.beginning at read
  simp only [Statement.evalAt, read] at h
  split at h
  · rename_i s found
    obtain ⟨node, hn, ⟨hw, rfl⟩ | rfl⟩ := Statement.readReturn_inv found
    · refine .inr ⟨node, hn, hw, ?_⟩
      obtain h | ⟨result, m₁, ended, h⟩ := bind_failed h
      -- the keyword behind has failed, or the return has because there is no value
      · exact .inr h
      · cases result with
        | some value => cases h
        | none =>
          cases h
          exact .inl ended
    · cases h
  · rename_i found
    cases h
    exact .inl ⟨Statement.readReturn_error found, rfl⟩

/-- A return that fails for a recoverable cause changes nothing, or a statement at the end of a row
of returns had no value. -/
lemma eval_return_fruitless (hk : Keyword.ofText? (m.textAt site) = some .giveBack)
    (h : Statement.eval host site m = .error (.failed e) m') (he : e.isRecoverable = true) :
    m.Unchanged m' ∨ Fruitless host site.next (m.beginning site) m' := by
  -- the induction is on the nodes that are left behind the return
  obtain ⟨n, left⟩ : ∃ n, (m.nodes site.script).length - site.index = n := ⟨_, rfl⟩
  induction n generalizing m site with
  | zero =>
    rw [eval_of_ge (Nat.le_of_sub_eq_zero left)] at h
    cases h
    exact .inl (.refl _)
  | succ n ih =>
    have began := Machine.Unchanged.log m (.began site m.store.current m.depth) rfl rfl
    obtain ⟨_, rfl⟩ | ⟨node, hn, _, ended | failed⟩ := eval_return hk h
    · exact .inl began
    · exact .inr (.here ended)
    · by_cases hk' : Keyword.ofText? ((m.beginning site).textAt site.next) = some .giveBack
      · have left' : ((m.beginning site).nodes site.next.script).length - site.next.index = n := by
          show (m.nodes site.script).length - (site.index + 1) = n
          omega
        obtain same | fruitless := ih hk' failed left'
        · exact .inl (began.trans same)
        · exact .inr (.behind hk' fruitless)
      · exact .inl (began.trans (eval_unchanged hk' failed he))

end

/-- A statement that fails for a recoverable cause changes nothing, unless it is a return. A return
leaves exactly what carrying out the keyword behind it has left; and unless that keyword, or the one
behind it if it is a return again, and so on, completed without a value, this is no change either.
-/
theorem failed_statement_unchanged {host : Host} {m m' : Machine} {site : Site} {e : Error}
    (h : Statement.eval host site m = .error (.failed e) m') (he : e.isRecoverable = true) :
    (Keyword.ofText? (m.textAt site) ≠ some .giveBack → m.Unchanged m') ∧
    (Keyword.ofText? (m.textAt site) = some .giveBack →
      (m.nodes site.script)[site.index + 1]? = none ∧ m.Unchanged m' ∨
      (∃ node, (m.nodes site.script)[site.index + 1]? = some node ∧ node.kind = .keyword) ∧
        m' = after (Statement.eval host site.next) (m.beginning site) ∧
        (m.Unchanged m' ∨ Fruitless host site.next (m.beginning site) m')) := by
  refine ⟨fun ne => eval_unchanged ne h he, fun hk => ?_⟩
  have fruitless := eval_return_fruitless hk h he
  obtain ⟨none, rfl⟩ | ⟨node, hn, hw, ended⟩ := eval_return hk h
  · exact .inl ⟨none, .log m _ rfl rfl⟩
  · refine .inr ⟨⟨node, hn, hw⟩, ?_, fruitless⟩
    obtain ended | ended := ended <;> rw [after, ended]

/-- After a script has run, a return of a line that is printed fails, and leaves the line. -/
theorem failed_statement_unchanged_print :
    let host : Host := { loader := .ofList [] }
    let m := (({} : Machine).runSource host ['a'] "@return @print \"x\"".toList).2
    ∃ e m', Statement.eval host ⟨0, 0⟩ m = .error (.failed e) m' ∧ e.isRecoverable = true ∧
      m' = after (Statement.eval host ⟨0, 1⟩) (m.beginning ⟨0, 0⟩) := by
  intro host m
  have fails : (match Statement.eval host ⟨0, 0⟩ m with
      | .error (.failed e) _ => e.isRecoverable
      | _ => false) = true := by decide +kernel
  have word : Keyword.ofText? (m.textAt ⟨0, 0⟩) = some .giveBack := by decide +kernel
  have follows : (m.nodes 0)[1]?.isSome = true := by decide +kernel
  cases h : Statement.eval host ⟨0, 0⟩ m with
  | ok _ m' => simp [h] at fails
  | error signal m' =>
    cases signal with
    | returned value => simp [h] at fails
    | failed e =>
      have he : e.isRecoverable = true := by simpa [h] using fails
      obtain ⟨none, _⟩ | ⟨_, left, _⟩ := (failed_statement_unchanged h he).2 word
      · simp [none] at follows
      · exact ⟨e, m', rfl, he, left⟩

/-- A return in front of a return can change the machine though the keyword behind it has failed:
the keyword behind that has completed. -/
theorem failed_return_changed :
    ¬ ∀ (host : Host) (m m' : Machine) (site : Site) (e : Error), Reachable m →
      Statement.eval host site m = .error (.failed e) m' → e.isRecoverable = true →
      Keyword.ofText? (m.textAt site) = some .giveBack →
      m.Unchanged m' ∨ Statement.eval host site.next (m.beginning site) = .ok none m' := by
  intro claim
  let host : Host := { loader := .ofList [] }
  let m := (({} : Machine).runSource host ['a'] "@return @return @print \"x\"".toList).2
  have reachable : Reachable m := .source _ _ _ .start
  have word : Keyword.ofText? (m.textAt ⟨0, 0⟩) = some .giveBack := by decide +kernel
  have fails : (match Statement.eval host ⟨0, 0⟩ m with
      | .error (.failed e) m' => e.isRecoverable && m'.output != m.output
      | _ => false) = true := by decide +kernel
  have next : (match Statement.eval host ⟨0, 1⟩ (m.beginning ⟨0, 0⟩) with
      | .ok none _ => false
      | _ => true) = true := by decide +kernel
  cases h : Statement.eval host ⟨0, 0⟩ m with
  | ok _ m' => simp [h] at fails
  | error signal m' =>
    cases signal with
    | returned value => simp [h] at fails
    | failed e =>
      simp only [h, Bool.and_eq_true, bne_iff_ne] at fails
      obtain same | ended := claim host m m' ⟨0, 0⟩ e reachable h fails.1 word
      · exact fails.2 same.output
      · change Statement.eval host ⟨0, 1⟩ (m.beginning ⟨0, 0⟩) = _ at ended
        simp [ended] at next

end Sigil
