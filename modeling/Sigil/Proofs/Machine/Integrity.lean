import Mathlib.Tactic.Common
import Mathlib.Data.List.Nodup
import Sigil.Proofs.Machine.Conduct

/-!
# Referential integrity

The parts of a machine refer to each other by numbers: a scope names a bracket by its script and
index, a function its body, a node the variable that it shows, and a script the records that it has
exported. `Integrity` says that all these references are good. It holds of every machine that is met
(`Visited.integrity`).

What running does comes down to two kinds of changes, and each has its own lemma: those that rewrite
nodes and leave the records alone (`Integrity.rewritten`), and those that change the records and
leave the scripts alone (`Integrity.withSymbols`). Only loading a script does neither.
-/

namespace Sigil

namespace Machine

/-- The place is that of a bracket. -/
def HasBracket (m : Machine) (id : ScriptId) (i : Nat) : Prop :=
  ∃ shape, (m.shapes id)[i]? = some shape ∧ shape.kind.IsBracket

/-- The body of the function is a block of its script, behind a sibling with the parameters. -/
structure Holds (m : Machine) (f : Function) : Prop where
  params : f.params = Text.items f.rawParams
  parts : ∃ i params body, (m.shapes f.owner)[i]? = some params ∧
    (m.shapes f.owner)[f.body]? = some body ∧ params.kind = .paren ∧ body.kind = .block ∧
    i < f.body ∧ params.parent = body.parent

end Machine

/-- The address is that of a variable that can be seen from the site. -/
def Table.Shows (t : Table) (site : Scope) (address : Address) : Prop :=
  ∃ name scope, (address, name, scope) ∈ t.declarations ∧ scope.visibleFrom site = true

/-- All references inside a machine are good. -/
structure Integrity (m : Machine) : Prop where
  numbered : m.Numbered
  names : (m.store.outlines.map Outline.name).Nodup
  forest : ∀ id, IsForest (m.shapes id)
  ordered : m.symbols.Ordered
  scopes : ∀ ⦃address name id i⦄, (address, name, .bracket id i) ∈ m.symbols.declarations →
    m.HasBracket id i
  functions : ∀ f ∈ m.symbols.functions, m.Holds f
  bound : ∀ ⦃id node address⦄, node ∈ m.nodes id → node.bound = some address →
    m.symbols.Shows (.enclosing id node.parent) address
  exports : ∀ list, some list ∈ m.store.exportLists → list <+: m.symbols.addresses

/-- A machine at the start is intact. -/
lemma Integrity.start : Integrity {} where
  numbered i o ho := by simp [Store.outlines] at ho
  names := List.nodup_nil
  forest id := IsForest.nil
  ordered := .empty
  scopes _ _ _ _ h := by simp [Table.declarations, Table.variableList] at h
  functions f h := by simp [Table.functions] at h
  bound id node address h := by simp [Machine.nodes, Store.nodes, Store.get?] at h
  exports list h := by simp [Store.exportLists] at h

section
variable {m m' : Machine}

/-- A bracket is not lost when scripts are added. -/
lemma Machine.HasBracket.grow (h : m.store.outlines <+: m'.store.outlines) {id i}
    (hb : m.HasBracket id i) : m'.HasBracket id i := by
  obtain ⟨shape, hs, br⟩ := hb
  exact ⟨shape, shapes_of_grown h hs ▸ hs, br⟩

/-- A function is not lost when scripts are added. -/
lemma Machine.Holds.grow (h : m.store.outlines <+: m'.store.outlines) {f}
    (hf : m.Holds f) : m'.Holds f := by
  obtain ⟨params, i, p, b, hp, hb, rest⟩ := hf
  have e := shapes_of_grown h hp
  exact ⟨params, i, p, b, e ▸ hp, e ▸ hb, rest⟩

/-- What a scope sees in a table, it sees in one with more declarations. -/
lemma Table.Shows.mono {t t' : Table} {site address}
    (h : ∀ d ∈ t.declarations, d ∈ t'.declarations) (hs : t.Shows site address) :
    t'.Shows site address := by
  obtain ⟨name, scope, mem, visible⟩ := hs
  exact ⟨name, scope, h _ mem, visible⟩

/-- What a name means at a site can be seen from there. -/
lemma Table.shows_of_resolve {t : Table} {name site address v}
    (h : t.resolve name site = some (address, v)) : t.Shows site address := by
  obtain ⟨mem, _, visible⟩ := resolve_inv h
  exact ⟨_, _, mem_declarations mem, visible⟩

/-- The shape of a node is found at the place of the node. -/
lemma Machine.shapes_getElem? (m : Machine) {id : ScriptId} {i : Nat} {node : Node}
    (h : (m.nodes id)[i]? = some node) : (m.shapes id)[i]? = some node.toShape := by
  simp [shapes, h]

end

namespace Integrity

variable {m m' : Machine}

/-- Nodes may be rewritten, as long as they show variables that they can see. -/
lemma rewritten (int : Integrity m) (symbols : m'.symbols = m.symbols)
    (outlines : m'.store.outlines = m.store.outlines)
    (bound : ∀ ⦃id node address⦄, node ∈ m'.nodes id → node.bound = some address →
      m.symbols.Shows (.enclosing id node.parent) address)
    (exports : ∀ list, some list ∈ m'.store.exportLists → list <+: m.symbols.addresses) :
    Integrity m' where
  numbered _ _ ho := int.numbered (outlines ▸ ho)
  names := outlines ▸ int.names
  forest id := Machine.shapes_eq outlines id ▸ int.forest id
  ordered := symbols ▸ int.ordered
  scopes _ _ _ _ h := (int.scopes (symbols ▸ h)).grow (outlines ▸ List.prefix_refl _)
  functions f h := (int.functions f (symbols ▸ h)).grow (outlines ▸ List.prefix_refl _)
  bound _ _ _ mem h := symbols ▸ bound mem h
  exports list h := symbols ▸ exports list h

/-- Records may be changed, as long as no declaration is lost and the new ones are good. -/
lemma withSymbols (int : Integrity m) {t : Table} (ordered : t.Ordered)
    (kept : ∀ d ∈ m.symbols.declarations, d ∈ t.declarations)
    (scopes : ∀ ⦃address name id i⦄, (address, name, .bracket id i) ∈ t.declarations →
      m.HasBracket id i)
    (functions : ∀ f ∈ t.functions, m.Holds f)
    (addresses : m.symbols.addresses <+: t.addresses) : Integrity { m with symbols := t } where
  numbered := int.numbered
  names := int.names
  forest := int.forest
  ordered := ordered
  scopes := scopes
  functions f h := ⟨(functions f h).params, (functions f h).parts⟩
  bound _ _ _ mem h := (int.bound mem h).mono kept
  exports list h := (int.exports list h).trans addresses

/-- Neither the journal nor what is current matters. -/
lemma congr (int : Integrity m) (symbols : m'.symbols = m.symbols)
    (scripts : m'.store.scripts = m.store.scripts) : Integrity m' := by
  refine int.rewritten symbols ?_ ?_ ?_
  · simp only [Store.outlines, scripts]
  · intro id node address mem h
    have e : m'.nodes id = m.nodes id := by
      simp only [Machine.nodes, Store.nodes, Store.get?, scripts]
    exact int.bound (e ▸ mem) h
  · simpa only [Store.exportLists, scripts] using int.exports

/-- Placeholders are filled in with variables that can be seen. -/
lemma substituteAll (int : Integrity m) : Integrity m.substituteAll := by
  refine int.rewritten rfl m.outlines_substituteAll ?_ (m.exportLists_substituteAll ▸ int.exports)
  intro id node address mem h
  rw [int.numbered.nodes_substituteAll] at mem
  obtain ⟨old, ho, rfl⟩ := List.mem_map.1 mem
  rw [Node.parent_substitute]
  rcases Node.substitute_bound_inv h with h | ⟨name, v, found⟩
  · exact int.bound ho h
  · exact Table.shows_of_resolve found

/-- Nodes that follow a change show what they showed. -/
lemma propagate (int : Integrity m) (address : Address) (old new : Text) (p : Propagation) :
    Integrity (m.propagate address old new p) := by
  refine int.rewritten (m.symbols_propagate address old new p)
    (m.outlines_propagate address old new p) ?_
    (m.exportLists_propagate address old new p ▸ int.exports)
  intro id node shown mem h
  cases p with
  | follow =>
    rw [m.nodes_propagate_follow] at mem
    obtain ⟨before, hn, rfl⟩ := List.mem_map.1 mem
    split at h
    · rw [if_pos (by assumption), Node.parent_follow]
      exact int.bound hn (before.bound_follow _ _ ▸ h)
    · rw [if_neg (by assumption)]
      exact int.bound hn h
  | overwrite =>
    rw [m.nodes_propagate_overwrite] at mem
    obtain ⟨before, hn, rfl⟩ := List.mem_map.1 mem
    split at h
    · rw [if_pos (by assumption)]
      exact @int.bound _ before _ hn h
    · rw [if_neg (by assumption)]
      exact int.bound hn h

/-- A change of a text is a change of a record, followed by the nodes. -/
lemma update (int : Integrity m) (address : Address) (text : Text) (p : Propagation) :
    Integrity (m.update address text p) := by
  rcases m.update_cases address text p with ⟨_, e⟩ | ⟨old, _, e⟩
  · exact e.symm ▸ int
  · rw [e]
    refine (int.withSymbols (int.ordered.setText address text) ?_ ?_ ?_ ?_).propagate _ _ _ p
    · simp
    · simpa using int.scopes
    · simpa using int.functions
    · simp

/-- The scope that a statement or call declares into is that of a bracket. -/
lemma declares (int : Integrity m) {scope : Scope} (h : m.Declares scope) {id i}
    (e : scope = .bracket id i) : m.HasBracket id i := by
  cases h with
  | statement site =>
    simp only [Machine.scopeOf] at e
    cases hn : (m.nodes site.script)[site.index]? with
    | none => simp [hn, Scope.enclosing] at e
    | some node =>
      cases hp : node.parent with
      | none => simp [hn, hp, Scope.enclosing] at e
      | some p =>
        -- the scope is the parent of the statement, and parents are brackets
        simp only [hn, hp, Option.bind_some, Scope.enclosing] at e
        cases e
        exact (int.forest _ (m.shapes_getElem? hn) hp).2
  | @call name f hf =>
    cases e
    obtain ⟨_, _, _, b, _, hb, _, kind, _⟩ := int.functions f (int.ordered.function_inv hf).1
    exact ⟨b, hb, .inl kind⟩

/-- A binding in a scope that statements or calls declare into. -/
lemma bind (int : Integrity m) {scope : Scope} (h : m.Declares scope) (name text : Text) :
    Integrity (m.bind name text scope) := by
  rcases m.bind_cases name text scope with ⟨address, _, _, e⟩ | ⟨new, e⟩
  · exact e ▸ (int.update address text .follow).substituteAll
  · rw [e]
    have ord := int.ordered
    refine (int.withSymbols (ord.declare new) ?_ ?_ ?_ ?_).substituteAll
    · intro d mem
      exact ord.declarations_declare _ ▸ List.mem_append_left _ mem
    · -- there is one new declaration, in the scope that is declared into
      intro address name id i mem
      rw [ord.declarations_declare, List.mem_append, List.mem_singleton] at mem
      rcases mem with mem | new
      · exact int.scopes mem
      · exact int.declares h (Prod.mk.inj (Prod.mk.inj new).2).2.symm
    · exact ord.functions_declare _ ▸ int.functions
    · exact ord.addresses_declare _ ▸ List.prefix_append _ _

/-- An assignment keeps a machine intact. -/
lemma assign (int : Integrity m) (site : Site) (name text : Text) (p : Propagation) :
    Integrity (m.assign site name text p) := by
  rcases m.assign_cases site name text p with ⟨address, _, _, e⟩ | e
  · exact e ▸ (int.update address text p).substituteAll
  · exact e ▸ int.bind (.statement site) name text

/-- A function that is declared by a statement keeps a machine intact. -/
lemma define (int : Integrity m) {site : Site} {f : Function}
    (h : Statement.DeclaredAt m site f) : Integrity (m.define f) := by
  have ord := int.ordered
  refine int.withSymbols (t := m.symbols.define f) (ord.define f) ?_ ?_ ?_ ?_
  · exact fun d mem => ord.declarations_define f ▸ mem
  · exact ord.declarations_define f ▸ int.scopes
  · intro g mem
    rcases Table.functions_define mem with rfl | mem
    · obtain ⟨owner, params, i, p, b, hp, hb, kp, kb, lt, parents⟩ := h
      refine ⟨params, i, p.toShape, b.toShape, ?_, ?_, kp, kb, lt, parents⟩
      · exact owner ▸ m.shapes_getElem? hp
      · exact owner ▸ m.shapes_getElem? hb
    · exact int.functions g mem
  · exact Table.addresses_define m.symbols f

/-- An export keeps a machine intact. -/
lemma exportAll (int : Integrity m) (site : Site) : Integrity (m.exportAll site) := by
  refine int.rewritten rfl (m.outlines_exportAll site) ?_ ?_
  · intro id node address mem h
    exact int.bound (m.nodes_exportAll site id ▸ mem) h
  · intro list h
    rcases Machine.exportLists_exportAll h with rfl | h
    · exact List.prefix_refl _
    · exact int.exports list h

/-- A script that is loaded refers to nothing yet. -/
lemma load (int : Integrity m) {name source id store}
    (new : m.store.insert? name (Nodes.ofSource source) = some (id, store)) :
    Integrity { m with store } := by
  obtain ⟨fresh, rfl, rfl⟩ := Store.insert_inv new
  let script : Script := { id := m.store.size, name, nodes := Nodes.ofSource source }
  let m' : Machine := { m with store := { m.store with scripts := m.store.scripts ++ [script] } }
  have outlines : m'.store.outlines = m.store.outlines ++ [script.outline] := by
    simp [m', Store.outlines]
  have added : m.store.outlines <+: m'.store.outlines := outlines ▸ List.prefix_append _ _
  have nodes : ∀ id, m'.nodes id =
      if id = m.store.size then Nodes.ofSource source else m.nodes id :=
    m.store.nodes_snoc script
  refine ⟨?_, ?_, ?_, int.ordered, ?_, ?_, ?_, ?_⟩
  · -- the number of the new script is its place
    intro i o ho
    rw [outlines, List.getElem?_append] at ho
    split at ho
    · exact int.numbered ho
    · rename_i ge
      obtain ⟨lt, e⟩ := List.getElem?_eq_some_iff.1 ho
      simp only [List.length_singleton, List.getElem_singleton] at lt e
      subst e
      simp only [Store.outlines, List.length_map] at lt ge
      show m.store.scripts.length = i
      omega
  · rw [outlines, List.map_append]
    refine List.nodup_append.2 ⟨int.names, List.nodup_singleton _, ?_⟩
    intro a mem b hb e
    refine fresh ?_
    simp only [Store.outlines, List.map_map] at mem
    rw [e, List.mem_singleton.1 hb] at mem
    exact mem
  · intro id
    show IsForest ((m'.nodes id).map Node.toShape)
    rw [nodes]
    split
    · exact ofSource_forest source
    · exact int.forest id
  · exact fun _ _ _ _ h => (int.scopes h).grow added
  · exact fun f h => (int.functions f h).grow added
  · -- the nodes of the new script show nothing
    intro id node address mem h
    rw [nodes] at mem
    split at mem
    · exact absurd h (by simp [ofSource_unbound mem])
    · exact int.bound mem h
  · intro list h
    simp only [Store.exportLists, List.map_append, List.mem_append] at h
    rcases h with h | h
    · exact int.exports list h
    · simp at h

end Integrity

/-- Running keeps all references good. -/
lemma Leads.integrity {host : Host} {m m' : Machine} (h : Leads host m m') (int : Integrity m) :
    Integrity m' := by
  induction h with
  | refl => exact int
  | trans _ _ ih ih' => exact ih' (ih int)
  | began => exact int.congr rfl rfl
  | printed => exact int.congr rfl rfl
  | reported => exact int.congr rfl rfl
  | @called m source reply =>
    obtain ⟨_, _, e⟩ := m.logNative_cases source reply
    rw [e]
    exact int.congr rfl rfl
  | bound name text declares => exact int.bind declares name text
  | assigned site name text p => exact int.assign site name text p
  | edited address text => exact (int.update address text .follow).substituteAll
  | defined declared => exact int.define declared
  | exported site => exact int.exportAll site
  | loaded new =>
    refine Integrity.substituteAll ?_
    exact (int.load new).congr rfl rfl
  | within _ _ ih => exact (ih (int.congr rfl rfl)).congr rfl rfl
  | nested _ _ ih => exact (ih (int.congr rfl rfl)).congr rfl rfl

/-- Every machine that is met has its references in good order. -/
lemma Visited.integrity {m : Machine} (h : Visited m) : Integrity m := by
  induction h with
  | start => exact .start
  | leads _ leads ih => exact leads.integrity ih
  | current _ _ ih => exact ih.congr rfl rfl
  | deeper _ _ ih => exact ih.congr rfl rfl
  | interrupt _ _ ih => exact ih.congr rfl rfl

/-! ### The references as they are read -/

section
variable {m : Machine}

/-- A shape is that of a node of a loaded script. -/
lemma Machine.shapes_inv {id : ScriptId} {i : Nat} {shape} (h : (m.shapes id)[i]? = some shape) :
    ∃ s node, m.store.get? id = some s ∧ s.nodes[i]? = some node ∧ node.toShape = shape := by
  simp only [shapes, List.getElem?_map, Option.map_eq_some_iff] at h
  obtain ⟨node, hn, e⟩ := h
  cases hs : m.store.get? id with
  | none => simp [nodes, Store.nodes, hs] at hn
  | some s => exact ⟨s, node, rfl, by simpa [nodes, Store.nodes, hs] using hn, e⟩

/-- A variable that is shown has its record under its address. -/
lemma Table.Ordered.shows_inv {t : Table} (ord : t.Ordered) {site address}
    (h : t.Shows site address) : ∃ v, t.lookup address = some ⟨address, .variable v⟩ ∧
      (v.scope = .everywhere ∨ v.scope = site) := by
  obtain ⟨name, scope, mem, visible⟩ := h
  obtain ⟨v, hv, _, rfl⟩ := declarations_inv mem
  exact ⟨v, ord.lookup_eq (mem_variableList.1 hv), by simpa [Scope.visibleFrom] using visible⟩

/-- No two records hold variables of one name and scope. -/
lemma Table.Ordered.variable_unique {t : Table} (ord : t.Ordered) {i j : Nat} {a b v w}
    (hi : t.records[i]? = some ⟨a, .variable v⟩) (hj : t.records[j]? = some ⟨b, .variable w⟩)
    (names : v.name = w.name) (scopes : v.scope = w.scope) : i = j := by
  have hv := mem_declarations (mem_variableList.2 (List.mem_of_getElem? hi))
  have hw := mem_declarations (mem_variableList.2 (List.mem_of_getElem? hj))
  have same := List.inj_on_of_nodup_map ord.declarations hv hw (by simp [names, scopes])
  have lt : i < t.addresses.length := by
    simpa [Table.addresses] using (List.getElem?_eq_some_iff.1 hi).1
  refine (List.getElem?_inj lt ord.addresses).1 ?_
  simp [Table.addresses, hi, hj, (Prod.mk.inj same).1]

/-- A record with a name as address holds the function of this name. -/
lemma Integrity.named_inv (int : Integrity m) {key entry}
    (h : ⟨.named key, entry⟩ ∈ m.symbols.records) :
    ∃ f, entry = .function f ∧ f.name = key ∧ m.Holds f := by
  obtain ⟨i, hi⟩ := List.getElem?_of_mem h
  have home := int.ordered.home hi
  rcases entry with v | f
  · cases home
  · refine ⟨f, rfl, (Address.named.inj home).symm, int.functions f ?_⟩
    exact List.mem_filterMap.2 ⟨_, h, rfl⟩

/-- A loaded script has its place as number. -/
lemma Integrity.script_id (int : Integrity m) {id s} (h : m.store.get? id = some s) : s.id = id :=
  int.numbered.script_id h

/-- Two loaded scripts have different names. -/
lemma Integrity.script_name (int : Integrity m) {i j s s'} (hi : m.store.get? i = some s)
    (hj : m.store.get? j = some s') (e : s.name = s'.name) : i = j := by
  unfold Store.get? at hi hj
  have lt : i < (m.store.outlines.map Outline.name).length := by
    simpa [Store.outlines] using (List.getElem?_eq_some_iff.1 hi).1
  refine (List.getElem?_inj lt int.names).1 ?_
  simp [Store.outlines, hi, hj, Script.outline, e]

end

/-- Runs leave only good references behind, whatever they do and however they end: scripts are
numbered in order and have names of their own; the scope of a variable is a bracket of a loaded
script; a record under a name is the function of this name, with its body and parameters in place; a
node shows a variable that it can see; what a script has exported are the first records of the
table; and a scope has at most one variable of a name. -/
theorem Reachable.references_good {m : Machine} (h : Reachable m) :
    ((∀ i s, m.store.get? i = some s → s.id = i) ∧
      ∀ i j s s', m.store.get? i = some s → m.store.get? j = some s' → s.name = s'.name → i = j) ∧
    (∀ a v id i, ⟨a, .variable v⟩ ∈ m.symbols.records → v.scope = .bracket id i →
      ∃ s node, m.store.get? id = some s ∧ s.nodes[i]? = some node ∧
        (node.kind = .block ∨ node.kind = .paren)) ∧
    (∀ key entry, ⟨.named key, entry⟩ ∈ m.symbols.records →
      ∃ f, entry = .function f ∧ f.name = key ∧ f.params = Text.items f.rawParams ∧
        ∃ s body, m.store.get? f.owner = some s ∧ s.nodes[f.body]? = some body ∧
          body.kind = .block ∧ ∃ i < f.body, ∃ params, s.nodes[i]? = some params ∧
            params.kind = .paren ∧ params.parent = body.parent) ∧
    (∀ id s node a, m.store.get? id = some s → node ∈ s.nodes → node.bound = some a →
      ∃ v, m.symbols.lookup a = some ⟨a, .variable v⟩ ∧
        (v.scope = .everywhere ∨ v.scope = .enclosing id node.parent)) ∧
    (∀ s ∈ m.store.scripts, ∀ list, s.exports = some list → list <+: m.symbols.addresses) ∧
    ∀ (i j : Nat) a b v w, m.symbols.records[i]? = some ⟨a, .variable v⟩ →
      m.symbols.records[j]? = some ⟨b, .variable w⟩ → v.name = w.name → v.scope = w.scope →
      i = j := by
  have int := h.visited.integrity
  refine ⟨⟨fun i s => int.script_id, fun i j s s' => int.script_name⟩, ?_, ?_, ?_, ?_, ?_⟩
  · intro a v id i mem e
    have declared := Table.mem_declarations (Table.mem_variableList.2 mem)
    obtain ⟨shape, hs, br⟩ := int.scopes (e ▸ declared)
    obtain ⟨s, node, loaded, hn, rfl⟩ := Machine.shapes_inv hs
    exact ⟨s, node, loaded, hn, br⟩
  · intro key entry mem
    obtain ⟨f, e, name, holds⟩ := int.named_inv mem
    obtain ⟨i, p, b, hp, hb, kp, kb, lt, parents⟩ := holds.parts
    obtain ⟨s, params, hs, paramsAt, rfl⟩ := Machine.shapes_inv hp
    obtain ⟨s', body, hs', bodyAt, rfl⟩ := Machine.shapes_inv hb
    cases hs.symm.trans hs'
    exact ⟨f, e, name, holds.params, s, body, hs, bodyAt, kb, i, lt, params, paramsAt, kp, parents⟩
  · intro id s node a hs mem bound
    refine int.ordered.shows_inv (int.bound ?_ bound)
    simpa [Machine.nodes, Store.nodes, hs] using mem
  · intro s mem list e
    exact int.exports list (List.mem_map.2 ⟨s, mem, e⟩)
  · intro i j a b v w
    exact int.ordered.variable_unique

/-- In a script that declares a variable inside a function, a string of the function's block shows
the variable, and the block is its scope. -/
theorem references_good_in_function :
    let source := "@func \x7bf\x7d (a) \x7b @declare \"x = 1\" @print \"[#x]\" \x7d @call \"f\" (b)"
    let m := (({} : Machine).runSource { loader := .ofList [] } "main".toList source.toList).2
    ∃ s, m.store.get? 0 = some s ∧ ∃ node ∈ s.nodes, node.bound = some (.number 1624) ∧
      ∃ v, m.symbols.lookup (.number 1624) = some ⟨.number 1624, .variable v⟩ ∧
        (v.scope = .everywhere ∨ v.scope = .bracket 0 3) := by
  intro source m
  have shown : (m.store.get? 0).any (fun s => s.nodes.any fun node =>
      node.bound = some (.number 1624) ∧ node.parent = some 3) = true := by decide +kernel
  obtain ⟨s, hs, h⟩ := (Option.any_eq_true _ _).1 shown
  obtain ⟨node, mem, h⟩ := List.any_eq_true.1 h
  obtain ⟨bound, parent⟩ := of_decide_eq_true h
  have reachable : Reachable m := .source _ _ _ .start
  have found := reachable.references_good.2.2.2.1 0 s node _ hs mem bound
  exact ⟨s, hs, node, mem, bound, by simpa only [parent, Scope.enclosing] using found⟩

end Sigil
