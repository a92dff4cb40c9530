import Mathlib.Tactic.Common
import Sigil.Proofs.Machine.Lockstep

/-!
# Raising the limit

The limit of levels is there to stop runs that go too deep. A run that is not stopped by it does not
notice it: with a higher limit it does the same.
-/

namespace Sigil

/-- The host with another limit. -/
def Host.withLimit (host : Host) (limit : Nat) : Host :=
  { host with depthLimit := limit }

/-- The step with another limit. -/
def Step.withLimit (limit : Nat) : Step → Step
  | .source host name text => .source (host.withLimit limit) name text
  | .file host name => .file (host.withLimit limit) name
  | .interrupt interrupted => .interrupt interrupted

/-- The runs note the same down until the first one is stopped by its limit. -/
def Comparison.higherLimit (host : Host) (limit more : Nat) :
    Comparison (host.withLimit limit) (host.withLimit (limit + more)) where
  adapt := id
  more
  ready := Eq
  near := Eq
  apart e _ _ := ∃ depth limit, e = .tooDeep depth limit
  loader_eq := rfl
  native_eq := by simp [Host.withLimit]
  limit_eq := rfl
  near_of_ready := id
  interrupted_eq h := by rw [h]
  sources_eq h := by rw [h]
  began _ _ _ h := by rw [h]
  printed _ h := by rw [h]
  loaded _ h := by rw [h]
  reported _ h := by rw [h]
  result_eq _ _ _ := rfl
  called _ _ h := by rw [h]; rfl
  stops h := .inl h
  refuses _ depth limit _ _ := ⟨depth, limit, rfl⟩
  apart_fatal h := by
    obtain ⟨_, _, rfl⟩ := h
    rfl
  apart_grows h _ := h

section
variable {m : Machine} {limit limit' : Nat}

/-- A run that never goes too deep is the same run under a higher limit. -/
lemma runSource_withLimit (hm : m.depth = 0) (le : limit ≤ limit') (host : Host) (name text : Text)
    (fits : ∀ depth limit', (m.runSource (host.withLimit limit) name text).1 ≠
      .error (.tooDeep depth limit')) :
    m.runSource (host.withLimit limit') name text =
      m.runSource (host.withLimit limit) name text := by
  obtain ⟨more, rfl⟩ := Nat.exists_eq_add_of_le le
  obtain ⟨result, m₁, n₁, first, second, near⟩ | ⟨e, m₁, first, parted⟩ :=
    (Comparison.higherLimit host limit more).runSource hm name text rfl
  · cases near
    exact second.trans first.symm
  · obtain ⟨depth, limit', rfl⟩ := parted
    exact absurd (congrArg Prod.fst first) (fits depth limit')

/-- A step that never goes too deep is the same step under a higher limit. -/
lemma Step.run_withLimit (hm : m.depth = 0) (le : limit ≤ limit') {step : Step}
    (fits : ∀ depth limit', ((step.withLimit limit).run m).1 ≠
      some (.error (.tooDeep depth limit'))) :
    (step.withLimit limit').run m = (step.withLimit limit).run m := by
  cases step with
  | source host name text =>
    have same := runSource_withLimit hm le host name text fun depth limit' e =>
      fits depth limit' (congrArg some e)
    simp only [withLimit, run, same]
  | file host name =>
    cases found : host.loader name with
    | error failure =>
      simp only [withLimit, run, Machine.runFile, Host.withLimit, found]
    | ok text =>
      have same := runSource_withLimit hm le host name text fun depth limit' e =>
        fits depth limit' ?_
      · simp only [withLimit, run, Machine.runFile, Host.withLimit, found] at same ⊢
        rw [same]
      · simp only [withLimit, run, Machine.runFile, Host.withLimit, found] at e ⊢
        rw [e]
  | interrupt interrupted => rfl

end

/-- Steps of which none is stopped by the limit have the same results with a higher one, and leave
the same machine after each step. -/
theorem Reachable.limit_raised {m : Machine} (h : Reachable m) {limit limit' : Nat}
    (le : limit ≤ limit') (steps : List Step)
    (fits : ∀ r ∈ m.runs (steps.map (Step.withLimit limit)), ∀ depth limit',
      r.1 ≠ some (.error (.tooDeep depth limit'))) :
    m.runs (steps.map (Step.withLimit limit')) = m.runs (steps.map (Step.withLimit limit)) := by
  induction steps generalizing m with
  | nil => rfl
  | cons step steps ih =>
    have first : (step.withLimit limit').run m = (step.withLimit limit).run m :=
      Step.run_withLimit h.depth_eq le (fits _ List.mem_cons_self)
    have rest := ih (h.step (step.withLimit limit)) fun r mem =>
      fits r (List.mem_cons_of_mem _ mem)
    simp only [List.map_cons, Machine.runs, first, rest]

/-- A function that calls another one needs two levels, and a third one changes nothing. -/
theorem limit_raised_call_in_call :
    let text := ("@func \x7bg\x7d () \x7b @print \"1\" \x7d "
      ++ "@func \x7bf\x7d () \x7b @call \"g\" () \x7d @call \"f\" ()").toList
    let step : Step := .source { loader := .ofList [] } ['a'] text
    let runs (limit : Nat) := ({} : Machine).runs ([step, step].map (Step.withLimit limit))
    (runs 2).map (fun r => (r.1, r.2.output)) =
        [(some (.ok 0), [['1']]), (some (.error (.duplicateScript ['a'])), [['1']])] ∧
      runs 3 = runs 2 := by
  intro text step runs
  have shown : (runs 2).map (fun r => (r.1, r.2.output)) =
      [(some (.ok 0), [['1']]), (some (.error (.duplicateScript ['a'])), [['1']])] := by
    decide +kernel
  refine ⟨shown, Reachable.limit_raised .start (by decide) [step, step] ?_⟩
  intro r mem depth limit deep
  have listed : (r.1, r.2.output) ∈ (runs 2).map fun r => (r.1, r.2.output) :=
    List.mem_map_of_mem mem
  rw [shown, deep] at listed
  simp at listed

end Sigil
