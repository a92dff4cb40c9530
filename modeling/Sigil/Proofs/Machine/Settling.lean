import Mathlib.Tactic.Common
import Sigil.Proofs.Machine.Trace
import Sigil.Proofs.Node.Refilling

/-!
# Nothing is left to fill in

Whatever changes a variable or loads a script fills in all placeholders afterwards. If the texts of
the variables are harmless, one pass is enough (`Machine.Harmless.settled_substituteAll`), and what
happens before the next pass does not change what the placeholders mean. So all machines that are
met have nothing left to fill in (`Visited.filledIn`).

That the texts are harmless is asked of the machine that one looks at, not of those before it: the
induction is on `FilledIn`, which every pass establishes anew, whatever the texts were when the pass
before it was made.
-/

namespace Sigil

namespace Machine

variable {m m' : Machine}

/-- The texts of all variables are harmless. -/
def Harmless (m : Machine) : Prop :=
  ∀ ⦃address v⦄, (address, v) ∈ m.symbols.variableList → (Text.trim v.text).Harmless

/-- No node has a placeholder that a variable could fill which can be seen from there. -/
def Settled (m : Machine) : Prop :=
  ∀ ⦃id node⦄, node ∈ m.nodes id → ∀ ⦃inside⦄, .hole inside ∈ Piece.ofText node.value →
    ∀ ⦃address v⦄, (address, v) ∈ m.symbols.variableList → v.name = Text.trim inside →
      v.scope.visibleFrom (.enclosing id node.parent) = false

/-- If all texts are harmless, so are those that can be seen from a site. -/
lemma Harmless.harmlessAt (h : m.Harmless) (site : Scope) : m.symbols.HarmlessAt site :=
  fun _ _ _ found => h (Table.resolve_inv found).1

/-- One pass is enough. -/
lemma Harmless.settled_substituteAll (h : m.Harmless) (num : m.Numbered) :
    m.substituteAll.Settled := by
  intro id node mem inside hole address v declared e
  rw [num.nodes_substituteAll] at mem
  obtain ⟨node, _, rfl⟩ := List.mem_map.1 mem
  have unresolved := Node.unresolved_of_substitute (h.harmlessAt _) hole
  rw [Node.parent_substitute]
  exact Table.resolve_eq_none_iff.1 unresolved address v declared e

/-- In a settled machine another pass changes nothing. -/
lemma Settled.substituteAll_eq (h : m.Settled) (num : m.Numbered) : m.substituteAll = m := by
  refine Machine.substituteAll_eq_self fun s mem node hn => Node.substitute_eq_self ?_
  obtain ⟨i, hs⟩ := List.getElem?_of_mem mem
  have loaded : node ∈ m.nodes s.id := by
    simpa [nodes, Store.nodes, Store.get?, num.script_id hs, hs] using hn
  exact fun inside hole => Table.resolve_eq_none_iff.2 fun address v declared =>
    h loaded hole declared

/-- A binding ends with a pass. -/
lemma bind_passes (m : Machine) (name text : Text) (scope : Scope) :
    ∃ m' : Machine, m'.store.outlines = m.store.outlines ∧
      m.bind name text scope = m'.substituteAll := by
  rcases m.bind_cases name text scope with ⟨address, _, _, e⟩ | ⟨_, e⟩
  · exact ⟨_, m.outlines_update address text .follow, e⟩
  · refine ⟨_, ?_, e⟩
    rfl

/-- So does an assignment. -/
lemma assign_passes (m : Machine) (site : Site) (name text : Text) (p : Propagation) :
    ∃ m' : Machine, m'.store.outlines = m.store.outlines ∧
      m.assign site name text p = m'.substituteAll := by
  rcases m.assign_cases site name text p with ⟨address, _, _, e⟩ | e
  · exact ⟨_, m.outlines_update address text p, e⟩
  · exact e ▸ m.bind_passes name text (m.scopeOf site)

/-- If the texts are harmless, nothing is left to fill in. -/
def FilledIn (m : Machine) : Prop :=
  m.Harmless → m.Settled

/-- After a pass, a machine is filled in. -/
lemma FilledIn.substituteAll (num : m.Numbered) : m.substituteAll.FilledIn :=
  fun harmless => Harmless.settled_substituteAll harmless num

/-- It depends on the variables and the nodes. -/
lemma FilledIn.congr (h : m.FilledIn)
    (vars : m'.symbols.variableList = m.symbols.variableList)
    (nodes : ∀ id, m'.nodes id = m.nodes id) : m'.FilledIn := by
  intro harmless id node mem inside hole address v declared
  have before : m.Harmless := fun address v mem => harmless (vars ▸ mem)
  rw [nodes] at mem
  rw [vars] at declared
  exact h before mem hole declared

end Machine

section
variable {host : Host} {m m' : Machine}

/-- Every change of a variable and every script loaded is followed by a pass, and what happens
without a pass changes neither a node nor a variable. -/
lemma Leads.filledIn (h : Leads host m m') (int : Integrity m) (filled : m.FilledIn) :
    m'.FilledIn := by
  induction h with
  | refl => exact filled
  | trans first _ ih ih' => exact ih' (first.integrity int) (ih int filled)
  | began => exact filled.congr rfl fun _ => rfl
  | printed => exact filled.congr rfl fun _ => rfl
  | reported => exact filled.congr rfl fun _ => rfl
  | @called m source reply =>
    obtain ⟨_, _, e⟩ := m.logNative_cases source reply
    rw [e]
    exact filled.congr rfl fun _ => rfl
  | @bound m scope name text _ =>
    obtain ⟨m', outlines, e⟩ := m.bind_passes name text scope
    rw [e]
    exact .substituteAll (int.numbered.congr outlines)
  | @assigned m site name text p =>
    obtain ⟨m', outlines, e⟩ := m.assign_passes site name text p
    rw [e]
    exact .substituteAll (int.numbered.congr outlines)
  | @edited m address text =>
    exact .substituteAll (int.numbered.congr (m.outlines_update address text .follow))
  -- a definition adds a function, and no text can show it
  | @defined m site f _ => exact filled.congr (int.ordered.variableList_define f) fun _ => rfl
  | @exported m site => exact filled.congr rfl (m.nodes_exportAll site)
  | loaded new => exact .substituteAll ((int.load new).numbered.congr rfl)
  | within _ _ ih =>
    exact (ih (int.congr rfl rfl) (filled.congr rfl fun _ => rfl)).congr rfl fun _ => rfl
  | nested _ _ ih =>
    exact (ih (int.congr rfl rfl) (filled.congr rfl fun _ => rfl)).congr rfl fun _ => rfl

/-- Every machine that a run comes to is filled in. -/
lemma Visited.filledIn (h : Visited m) : m.FilledIn := by
  induction h with
  | start =>
    intro _ id node mem
    simp [Machine.nodes, Store.nodes, Store.get?] at mem
  | leads visited leads ih => exact leads.filledIn visited.integrity ih
  | current _ _ ih => exact ih.congr rfl fun _ => rfl
  | deeper _ _ ih => exact ih.congr rfl fun _ => rfl
  | interrupt _ _ ih => exact ih.congr rfl fun _ => rfl

/-- A machine that is met has nothing left to fill in, and another pass changes nothing. -/
lemma Visited.settled (h : Visited m) (harmless : m.Harmless) : m.substituteAll = m ∧ m.Settled :=
  have settled := h.filledIn harmless
  ⟨settled.substituteAll_eq h.integrity.numbered, settled⟩

end

/-- Between statements nothing is left to fill in. Take the machine that runs have left behind, or
one in which a statement or any other task of a run is started, or one that the task leaves, however
it ends: if the texts of its variables are harmless, then filling in all placeholders once more
leaves every script as it is, and no node has a placeholder that a variable could fill which can be
seen from there. -/
theorem Reachable.settled_between_statements {m : Machine} (h : Reachable m) :
    (m.Harmless → m.substituteAll = m ∧ m.Settled) ∧
    ∀ host name text c, Relation.ReflTransGen (Starts host) (.source name text, m) c →
      (c.2.Harmless → c.2.substituteAll = c.2 ∧ c.2.Settled) ∧
      let left := (c.1.outcome host c.2).machine
      Gives host (.ofTask host c.1 c.2) (c.1.outcome host c.2) ∧
        (left.Harmless → left.substituteAll = left ∧ left.Settled) := by
  refine ⟨h.visited.settled, fun host name text c started => ?_⟩
  have proper := proper_of_starts started (h.proper host name text)
  have left : Visited (c.1.outcome host c.2).machine := proper.1.leads proper.outcome_leads
  exact ⟨proper.1.settled, gives_outcome proper, left.settled⟩

/-- A text with brackets in it is filled in between brackets, and then changed; what is left is a
placeholder without a variable and one that is not closed. -/
theorem settled_between_statements_bracketed :
    let host : Host := { loader := .ofList [] }
    let source := "@print \"[[#x]][#y] [#x\" @declare \"x = [a]\" @declare \"x = ]b\""
    let m := (({} : Machine).runSource host ['a'] source.toList).2
    m.Harmless ∧ m.substituteAll = m ∧ m.Settled ∧
      ((m.nodes 0)[1]?).map Node.value = some "[]b][#y] [#x".toList := by
  intro host source m
  obtain ⟨vars, shown⟩ : m.symbols.variableList = [(.number 0, ⟨['x'], "]b".toList, .everywhere⟩)] ∧
      ((m.nodes 0)[1]?).map Node.value = some "[]b][#y] [#x".toList := by decide +kernel
  have harmless : m.Harmless := by
    intro address v mem
    rw [vars, List.mem_singleton] at mem
    cases mem
    exact ⟨by decide, by decide, by decide, by decide⟩
  have reachable : Reachable m := .source host _ _ .start
  have settled := reachable.settled_between_statements.1 harmless
  exact ⟨harmless, settled.1, settled.2, shown⟩

end Sigil
