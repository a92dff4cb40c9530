import Mathlib.Tactic.Common
import Mathlib.Logic.Function.Iterate
import Sigil.Proofs.Machine.Integrity

/-!
# Scopes are isolated

A binding inside a bracket goes through the whole machine: the nodes of all scripts are searched for
placeholders, and those that show the variable follow its change. Still it reaches nothing but the
nodes directly inside the bracket. `AgreeOutside` says that two machines differ only in a scope, and
`agreeOutside_bind` that a machine after a binding in a bracket agrees outside the bracket with the
machine in which only the placeholders were filled in.

There are two ways in which a variable gets into a node. By its name, a placeholder only finds
variables that can be seen from the node (`Table.variableIn_congr`). By its address, a variable is
only found in nodes that show it, and they can see it too (`Integrity.bound`).
-/

namespace Sigil

/-- The record is that of a variable with this name and scope. -/
def Symbol.isOf (name : Text) (scope : Scope) (s : Symbol) : Bool :=
  s.asVariable.any fun (_, v) => v.name = name ∧ v.scope = scope

/-- The record is not that of a variable of the scope. -/
def Symbol.isOutside (scope : Scope) (s : Symbol) : Bool :=
  s.asVariable.all fun (_, v) => v.scope ≠ scope

/-- What is the record of a variable holds one with this name and scope. -/
lemma Symbol.isOf_inv {s : Symbol} {name : Text} {scope : Scope} (h : s.isOf name scope = true) :
    ∃ a v, s = ⟨a, .variable v⟩ ∧ v.name = name ∧ v.scope = scope := by
  obtain ⟨a, v | f⟩ := s
  · exact ⟨a, v, rfl, by simpa [isOf, asVariable] using h⟩
  · cases h

/-! ### Tables that differ in one scope -/

namespace Table

variable {t t' : Table}

/-- A new text changes no record at another address. -/
lemma withText_of_ne {address : Address} {text : Text} {s : Symbol} (ne : s.address ≠ address) :
    withText address text s = s := by
  obtain ⟨a, v | f⟩ := s
  · exact if_neg ne
  · rfl

/-- A new text does not make a record that of another variable. -/
@[simp] lemma isOf_withText (address : Address) (text name : Text) (scope : Scope) (s : Symbol) :
    (withText address text s).isOf name scope = s.isOf name scope := by
  obtain ⟨a, v | f⟩ := s
  · by_cases h : a = address <;> simp [Symbol.isOf, Symbol.asVariable, withText, h]
  · rfl

/-- A new text leaves the records alone that are not at the address. -/
lemma filter_setText {p : Symbol → Bool} {address : Address} {text : Text}
    (h : ∀ s ∈ t.records, s.address = address → p s = false ∧ p (withText address text s) = false) :
    (t.setText address text).records.filter p = t.records.filter p := by
  rw [records_setText]
  obtain ⟨records⟩ := t
  dsimp only at h ⊢
  induction records with
  | nil => rfl
  | cons s records ih =>
    have rest := ih fun s' mem => h s' (List.mem_cons_of_mem s mem)
    by_cases e : s.address = address
    · obtain ⟨before, now⟩ := h s (List.mem_cons_self ..) e
      simp [before, now, rest]
    · simp only [List.map_cons, List.filter_cons, withText_of_ne e, rest]

/-- A variable is looked for from the last record to the first. -/
lemma variableIn_eq (t : Table) (name : Text) (scope : Scope) : t.variableIn name scope =
    (t.records.reverse.find? (Symbol.isOf name scope)).bind Symbol.asVariable := by
  have e : Symbol.isOf name scope = fun s =>
      s.asVariable.any fun (_, v) => v.name == name && v.scope == scope := by
    funext s
    obtain ⟨a, v | f⟩ := s
    · simp [Symbol.isOf, Symbol.asVariable, Bool.decide_and, beq_eq_decide]
    · rfl
  rw [variableIn, variableList, ← List.filterMap_reverse, List.find?_filterMap, e]

/-- A variable is looked for among the records that can be it, and the others do not matter. -/
lemma variableIn_congr_of_filter {keep : Symbol → Bool} {name : Text} {scope : Scope}
    (kept : ∀ s : Symbol, s.isOf name scope = true → keep s = true)
    (h : t.records.filter keep = t'.records.filter keep) :
    t.variableIn name scope = t'.variableIn name scope := by
  have found : ∀ t : Table, t.variableIn name scope =
      ((t.records.filter keep).reverse.find? (Symbol.isOf name scope)).bind Symbol.asVariable := by
    intro t
    have e : (fun s : Symbol => decide (keep s = true ∧ s.isOf name scope = true)) =
        Symbol.isOf name scope := by
      funext s
      cases is : s.isOf name scope with
      | false => simp
      | true => simp [kept s is]
    rw [variableIn_eq, ← List.filter_reverse, List.find?_filter, e]
  rw [found t, found t', h]

/-- A variable is looked for among those of its scope only. -/
lemma variableIn_congr {scope scope' : Scope} (ne : scope' ≠ scope)
    (h : t.records.filter (Symbol.isOutside scope) = t'.records.filter (Symbol.isOutside scope))
    (name : Text) : t.variableIn name scope' = t'.variableIn name scope' := by
  refine variableIn_congr_of_filter (fun s is => ?_) h
  obtain ⟨_, v, rfl, -, rfl⟩ := Symbol.isOf_inv is
  simpa [Symbol.isOutside, Symbol.asVariable] using ne

/-- The variable of a scope has the text that it was given. -/
lemma variableIn_setText {name scope address v} (text : Text)
    (h : t.variableIn name scope = some (address, v)) :
    (t.setText address text).variableIn name scope = some (address, { v with text }) := by
  rw [variableIn_eq] at h ⊢
  obtain ⟨s, hs, e⟩ := Option.bind_eq_some_iff.1 h
  have isOf : Symbol.isOf name scope ∘ withText address text = Symbol.isOf name scope :=
    funext fun s => isOf_withText address text name scope s
  rw [records_setText, ← List.map_reverse, List.find?_map, isOf, hs]
  simp [e]

/-- What a name means outside a bracket does not depend on the variables inside. -/
lemma resolve_congr {script index} {site : Scope} (ne : site ≠ .bracket script index)
    (h : t.records.filter (Symbol.isOutside (.bracket script index)) =
      t'.records.filter (Symbol.isOutside (.bracket script index))) (name : Text) :
    t.resolve name site = t'.resolve name site := by
  rw [resolve, resolve, variableIn_congr ne h, variableIn_congr (by simp) h]

end Table

/-- Filling in a node only asks what names mean where it stands. -/
lemma Node.substitute_congr {t t' : Table} {script : ScriptId} {node : Node}
    (h : ∀ name, t.resolve name (.enclosing script node.parent) =
      t'.resolve name (.enclosing script node.parent)) :
    node.substitute t script = node.substitute t' script := by
  have add : Filling.add t (.enclosing script node.parent) =
      Filling.add t' (.enclosing script node.parent) := by
    funext f piece
    cases piece with
    | char c => rfl
    | hole inside => simp only [Filling.add, h]
  simp only [substitute, Filling.ofText, add]

/-! ### Machines that differ in one scope -/

/-- Machines that differ in nothing but the variables of a scope and the nodes that stand in it. -/
structure AgreeOutside (scope : Scope) (a b : Machine) : Prop where
  outlines : a.store.outlines = b.store.outlines
  nodes : ∀ ⦃id : ScriptId⦄ ⦃i : Nat⦄ ⦃node : Node⦄, (b.nodes id)[i]? = some node →
    .enclosing id node.parent ≠ scope → (a.nodes id)[i]? = some node
  records : a.symbols.records.filter (Symbol.isOutside scope) =
    b.symbols.records.filter (Symbol.isOutside scope)
  exports : a.store.exportLists = b.store.exportLists
  frame : a.frame = b.frame

namespace AgreeOutside

variable {scope : Scope} {a b c : Machine}

/-- A machine agrees with itself. -/
lemma refl (a : Machine) : AgreeOutside scope a a :=
  ⟨rfl, fun _ _ _ h _ => h, rfl, rfl, rfl⟩

/-- Agreement can be put together. -/
lemma trans (h : AgreeOutside scope a b) (h' : AgreeOutside scope b c) :
    AgreeOutside scope a c where
  outlines := h.outlines.trans h'.outlines
  nodes _ _ _ hn ne := h.nodes (h'.nodes hn ne) ne
  records := h.records.trans h'.records
  exports := h.exports.trans h'.exports
  frame := h.frame.trans h'.frame

/-- Machines that agree outside a bracket still do when placeholders are filled in. -/
lemma substituteAll {script index} (h : AgreeOutside (.bracket script index) a b)
    (num : a.Numbered) : AgreeOutside (.bracket script index) a.substituteAll b.substituteAll where
  outlines := by simpa using h.outlines
  nodes id i node hn ne := by
    rw [(num.congr h.outlines.symm).nodes_substituteAll, List.getElem?_map,
      Option.map_eq_some_iff] at hn
    obtain ⟨old, ho, rfl⟩ := hn
    rw [Node.parent_substitute] at ne
    rw [num.nodes_substituteAll, List.getElem?_map, h.nodes ho ne, Option.map_some,
      Node.substitute_congr (Table.resolve_congr ne h.records)]
  records := h.records
  exports := by simpa using h.exports
  frame := h.frame

end AgreeOutside

section
variable {m : Machine} {name text : Text} {script : ScriptId} {index : Nat}

/-- Nodes outside a bracket do not show the variables inside. -/
lemma Integrity.bound_ne (int : Integrity m) {address v}
    (found : m.symbols.variableIn name (.bracket script index) = some (address, v)) {id node}
    (mem : node ∈ m.nodes id) (ne : .enclosing id node.parent ≠ Scope.bracket script index) :
    node.bound ≠ some address := by
  intro bound
  obtain ⟨name', scope, declared, visible⟩ := int.bound mem bound
  obtain ⟨listed, _, hs⟩ := Table.variableIn_inv found
  have same := int.ordered.declarations_unique declared (Table.mem_declarations listed)
  cases same
  rw [hs] at visible
  have e : Scope.bracket script index = .enclosing id node.parent := by
    simpa [Scope.visibleFrom] using visible
  exact ne e.symm

/-- The record at the address of a variable is that of the variable. -/
lemma Integrity.isOf_address (int : Integrity m) {scope address v}
    (found : m.symbols.variableIn name scope = some (address, v)) {s}
    (mem : s ∈ m.symbols.records) (e : s.address = address) : s.isOf name scope = true := by
  obtain ⟨listed, hn, hs⟩ := Table.variableIn_inv found
  have h := int.ordered.lookup_eq (Table.mem_variableList.1 listed)
  have h' := int.ordered.lookup_eq mem
  rw [e, h] at h'
  cases h'
  simp [Symbol.isOf, Symbol.asVariable, hn, hs]

/-- The variable of a scope is not outside the scope. -/
lemma Symbol.not_isOutside {scope : Scope} {s : Symbol} (h : s.isOf name scope = true) :
    s.isOutside scope = false := by
  obtain ⟨_, v, rfl, -, rfl⟩ := isOf_inv h
  simp [isOutside, asVariable]

/-- A variable that was found can be changed. -/
lemma Integrity.update_found (int : Integrity m) {scope address v}
    (found : m.symbols.variableIn name scope = some (address, v)) (text : Text) (p : Propagation) :
    m.update address text p =
      { m with symbols := m.symbols.setText address text }.propagate address v.text text p := by
  have listed := (Table.variableIn_inv found).1
  have h := int.ordered.lookup_eq (Table.mem_variableList.1 listed)
  have e : m.symbols.textAt address = some v.text := by
    simp [Table.textAt, h, Symbol.asVariable]
  simp only [Machine.update, e]

/-- Before placeholders are filled in, a change of a variable inside a bracket stays there. -/
lemma agreeOutside_update (int : Integrity m) {address v}
    (found : m.symbols.variableIn name (.bracket script index) = some (address, v)) :
    AgreeOutside (.bracket script index) (m.update address text .follow) m where
  outlines := m.outlines_update address text .follow
  nodes id i node hn ne := by
    -- a node that follows the change shows the variable, so it stands in the bracket
    have other := int.bound_ne found (List.mem_of_getElem? hn) ne
    rw [int.update_found found, Machine.nodes_propagate_follow, List.getElem?_map]
    show Option.map _ (m.nodes id)[i]? = _
    rw [hn, Option.map_some, if_neg other]
  records := by
    rw [int.update_found found, Machine.symbols_propagate]
    refine Table.filter_setText fun s mem e => ?_
    have h := int.isOf_address found mem e
    have h' := (Table.isOf_withText address text _ _ s).trans h
    exact ⟨Symbol.not_isOutside h, Symbol.not_isOutside h'⟩
  exports := m.exportLists_update address text .follow
  frame := m.frame_update address text .follow

/-- Before placeholders are filled in, a new variable inside a bracket stays there. -/
lemma agreeOutside_declare (int : Integrity m) :
    AgreeOutside (.bracket script index)
      { m with symbols := m.symbols.declare { name, text, scope := .bracket script index } } m where
  outlines := rfl
  nodes _ _ _ hn _ := hn
  records := by
    rw [int.ordered.records_declare, List.filter_append]
    simp [Symbol.isOutside, Symbol.asVariable]
  exports := rfl
  frame := rfl

/-- After a binding inside a bracket, everything outside is as if only placeholders had been filled
in. -/
lemma agreeOutside_bind (int : Integrity m) (name text : Text) (script : ScriptId) (index : Nat) :
    AgreeOutside (.bracket script index) (m.bind name text (.bracket script index))
      m.substituteAll := by
  rcases m.bind_cases name text (.bracket script index) with ⟨address, v, found, e⟩ | ⟨_, e⟩
  · rw [e]
    refine (agreeOutside_update int found).substituteAll fun i o ho => ?_
    exact int.numbered (m.outlines_update address text .follow ▸ ho)
  · rw [e]
    exact (agreeOutside_declare int).substituteAll int.numbered

/-- A binding touches no record but that of the variable which it binds. -/
lemma filter_bind (int : Integrity m) (name text : Text) (scope : Scope) :
    (m.bind name text scope).symbols.records.filter (fun s => !s.isOf name scope) =
      m.symbols.records.filter fun s => !s.isOf name scope := by
  rcases m.bind_cases name text scope with ⟨address, v, found, e⟩ | ⟨_, e⟩
  · rw [e]
    show (m.update address text .follow).symbols.records.filter _ = _
    rw [int.update_found found, Machine.symbols_propagate]
    refine Table.filter_setText fun s mem e => ?_
    have h := int.isOf_address found mem e
    simp [h]
  · rw [e]
    show (m.symbols.declare _).records.filter _ = _
    rw [int.ordered.records_declare, List.filter_append]
    simp [Symbol.isOf, Symbol.asVariable]

/-- A binding gives the variable its text. -/
lemma variableIn_bind (int : Integrity m) (name text : Text) (scope : Scope) :
    ((m.bind name text scope).symbols.variableIn name scope).map (fun (_, v) => v.text) =
      some text := by
  rcases m.bind_cases name text scope with ⟨address, v, found, e⟩ | ⟨_, e⟩
  · rw [e]
    show ((m.update address text .follow).symbols.variableIn name scope).map _ = _
    rw [int.update_found found, Machine.symbols_propagate, Table.variableIn_setText text found]
    rfl
  · rw [e]
    show ((m.symbols.declare _).variableIn name scope).map _ = _
    rw [int.ordered.variableIn_declare { name, text, scope }]
    rfl

/-- The arguments of a call are seen nowhere but in the block of the function. -/
theorem agreeOutside_bindArguments (h : Visited m) {f : Function}
    (known : m.symbols.function? name = some f) (args : List Text) :
    AgreeOutside (.bracket f.owner f.body) (m.bindArguments f args)
      (Machine.substituteAll^[(f.params.zip args).length] m) := by
  -- the machine that binds and the one that only fills in go side by side
  have side : ∀ (pairs : List (Text × Text)) {a b : Machine}, Integrity a →
      a.symbols.function? name = some f → AgreeOutside (.bracket f.owner f.body) a b →
      AgreeOutside (.bracket f.owner f.body)
        (pairs.foldl (fun m pair =>
          m.bind (f.name ++ ".args.".toList ++ pair.1) pair.2 (.bracket f.owner f.body)) a)
        (Machine.substituteAll^[pairs.length] b) := by
    intro pairs
    induction pairs with
    | nil => exact fun _ _ agree => agree
    | cons pair pairs ih =>
      intro a b int known agree
      have bound :=
        agreeOutside_bind int (f.name ++ ".args.".toList ++ pair.1) pair.2 f.owner f.body
      refine ih ?_ ?_ (bound.trans (agree.substituteAll int.numbered))
      · exact int.bind (.call known) _ _
      · exact (a.function_bind _ _ _ name).trans known
  exact side _ h.integrity known (.refl m)

end

/-- Scopes are isolated: in the middle of any run, after a binding inside a bracket, be it new or
not, the nodes that do not stand directly in the bracket are as they are when only placeholders are
filled in; of the records, only that of the bound variable changes; and all else stays as it is. -/
theorem Visited.bind_isolated {m : Machine} (h : Visited m) (name text : Text) (script : ScriptId)
    (index : Nat) :
    let scope := Scope.bracket script index
    let after := m.bind name text scope
    (∀ (id : ScriptId) (i : Nat) (node : Node), (m.substituteAll.nodes id)[i]? = some node →
      .enclosing id node.parent ≠ scope → (after.nodes id)[i]? = some node) ∧
    after.symbols.records.filter (fun s => !s.isOf name scope) =
      m.symbols.records.filter (fun s => !s.isOf name scope) ∧
    (after.symbols.variableIn name scope).map (fun (_, v) => v.text) = some text ∧
    after.store.outlines = m.store.outlines ∧ after.store.exportLists = m.store.exportLists ∧
    after.frame = m.frame := by
  intro scope after
  have int := h.integrity
  have agree := agreeOutside_bind int name text script index
  refine ⟨fun id i node hn ne => agree.nodes hn ne, filter_bind int name text scope,
    variableIn_bind int name text scope, ?_, ?_, ?_⟩
  · exact m.outlines_bind name text scope
  · exact agree.exports.trans m.exportLists_substituteAll
  · exact m.frame_bind name text scope

/-- A binding inside the block of a function is filled in there, and not behind the function. -/
theorem bind_isolated_in_function :
    let m := (({} : Machine).runSource { loader := .ofList [] } "main".toList
      "@func \x7bf\x7d () \x7b \"[#x]\" \x7d \"[#x]\"".toList).2
    let after := m.bind ['x'] ['1'] (.bracket 0 3)
    after.textAt ⟨0, 4⟩ = ['1'] ∧
      (after.nodes 0)[5]? = some { kind := .string, parent := none, value := "[#x]".toList } := by
  intro m after
  have reachable : Reachable m := .source _ _ _ .start
  refine ⟨by decide +kernel, ?_⟩
  exact (reachable.visited.bind_isolated ['x'] ['1'] 0 3).1 0 5 _ (by decide +kernel) (by decide)

end Sigil
