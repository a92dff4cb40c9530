import Mathlib.Tactic.Common
import Sigil.Machine.Basic
import Sigil.Proofs.Node.Filling
import Sigil.Proofs.Symbol.Table

/-!
# What changes of variables leave alone

Variables are written into the nodes of all scripts, so a change of one touches the whole store. But
it only touches texts: the `Outline` of a script, its number, its name and the shapes of its nodes,
stays as it is (`outlines_bind`, `outlines_assign`, `outlines_update`), and so does everything of a
machine that is neither a record nor a script, its `frame`.

What does change is said node by node: `nodes_substituteAll`, `nodes_propagate_follow` and
`nodes_propagate_overwrite`. A node begins to show a variable only if its scope can see the variable
(`Node.substitute_bound_inv`).
-/

namespace Sigil

/-- What never changes of a loaded script. -/
structure Outline where
  id : ScriptId
  name : Text
  shapes : List Shape
deriving DecidableEq

/-- The outline of a script. -/
def Script.outline (s : Script) : Outline where
  id := s.id
  name := s.name
  shapes := s.nodes.map Node.toShape

/-- The outlines of all scripts. -/
def Store.outlines (s : Store) : List Outline :=
  s.scripts.map Script.outline

/-- The last variable filled in is one that some name means at the site. -/
lemma Filling.foldl_last_inv {table site pieces f address span}
    (h : (List.foldl (Filling.add table site) f pieces).last = some (address, span)) :
    f.last = some (address, span) ∨ ∃ name v, table.resolve name site = some (address, v) := by
  induction pieces generalizing f with
  | nil => exact .inl h
  | cons piece pieces ih =>
    rcases ih h with h | found
    · cases piece with
      | char c => exact .inl h
      | hole inside =>
        simp only [Filling.add] at h
        split at h
        · rename_i a v found
          cases h
          exact .inr ⟨_, v, found⟩
        · exact .inl h
    · exact .inr found

namespace Node

/-- A node shows the variable that it showed, or one that its scope can see. -/
lemma substitute_bound_inv {table script address} {node : Node}
    (h : (node.substitute table script).bound = some address) :
    node.bound = some address ∨
      ∃ name v, table.resolve name (.enclosing script node.parent) = some (address, v) := by
  unfold substitute at h
  dsimp only at h
  split at h
  · rename_i a span found
    cases h
    rcases Filling.foldl_last_inv found with new | found
    · cases new
    · exact .inr found
  · exact .inl h

end Node

namespace Script

/-- A script keeps its outline when its nodes keep their shapes. -/
lemma outline_mapNodes {f : Node → Node} (h : ∀ node, (f node).toShape = node.toShape)
    (s : Script) :
    (s.mapNodes f).outline = s.outline := by
  simp only [outline, mapNodes, List.map_map, Outline.mk.injEq, true_and]
  exact List.map_congr_left fun node _ => h node

/-- Filling in keeps the outline of a script. -/
@[simp] lemma outline_substitute (table : Table) (s : Script) :
    (s.substitute table).outline = s.outline :=
  outline_mapNodes (Node.toShape_substitute table s.id) s

/-- Following a change keeps the outline of a script. -/
@[simp] lemma outline_followChange (address : Address) (old new : Text) (s : Script) :
    (s.followChange address old new).outline = s.outline := by
  refine outline_mapNodes (fun node => ?_) s
  split
  · exact node.toShape_follow old new
  · rfl

/-- Writing over what is shown keeps the outline of a script. -/
@[simp] lemma outline_overwriteShown (address : Address) (new : Text) (s : Script) :
    (s.overwriteShown address new).outline = s.outline := by
  refine outline_mapNodes (fun node => ?_) s
  split <;> rfl

end Script

namespace Store

/-- What keeps the outline of every script keeps the outlines. -/
lemma outlines_map {f : Script → Script} (h : ∀ s, (f s).outline = s.outline) (store : Store) :
    (store.map f).outlines = store.outlines := by
  simp only [outlines, map, List.map_map]
  exact List.map_congr_left fun s _ => h s

/-- A store keeps its outlines when the one script that changes does. -/
lemma outlines_modify {f : Script → Script} (h : ∀ s, (f s).outline = s.outline) (store : Store)
    (id : ScriptId) : (store.modify id f).outlines = store.outlines := by
  apply List.ext_getElem?
  intro i
  simp only [outlines, modify, List.getElem?_map, List.getElem?_modify]
  split <;> cases store.scripts[i]? <;> simp [h]

/-- The shapes of a script can be read off the outlines. -/
lemma map_toShape_nodes (store : Store) (id : ScriptId) :
    (store.nodes id).map Node.toShape = ((store.outlines[id]?).map Outline.shapes).getD [] := by
  simp only [nodes, get?, outlines, List.getElem?_map]
  cases store.scripts[id]? <;> rfl

/-- What the scripts have exported. -/
def exportLists (store : Store) : List (Option (List Address)) :=
  store.scripts.map Script.exports

/-- The nodes of a script after a change of all scripts. -/
lemma nodes_map (store : Store) (f : Script → Script) (id : ScriptId) :
    (store.map f).nodes id = ((store.get? id).map fun s => (f s).nodes).getD [] := by
  simp only [nodes, get?, map, List.getElem?_map]
  cases store.scripts[id]? <;> rfl

/-- What keeps the exports of every script keeps the lists of exports. -/
lemma exportLists_map {f : Script → Script} (h : ∀ s, (f s).exports = s.exports) (store : Store) :
    (store.map f).exportLists = store.exportLists := by
  simp only [exportLists, map, List.map_map]
  exact List.map_congr_left fun s _ => h s

/-- What changes no nodes in one script changes none in any. -/
lemma nodes_modify {f : Script → Script} (h : ∀ s, (f s).nodes = s.nodes) (store : Store)
    (id id' : ScriptId) : (store.modify id f).nodes id' = store.nodes id' := by
  simp only [nodes, get?, modify, List.getElem?_modify]
  split <;> cases store.scripts[id']? <;> simp [h]

/-- The nodes of a script in a store with one more script. -/
lemma nodes_snoc (store : Store) (s : Script) (id : ScriptId) :
    { store with scripts := store.scripts ++ [s] }.nodes id =
      if id = store.size then s.nodes else store.nodes id := by
  unfold nodes get?
  dsimp only
  rcases Nat.lt_trichotomy id store.size with lt | rfl | gt
  · rw [if_neg (Nat.ne_of_lt lt), List.getElem?_append_left lt]
  · rw [if_pos rfl, size, List.getElem?_concat_length]
    rfl
  · rw [if_neg (Nat.ne_of_gt gt), List.getElem?_eq_none (Nat.le_of_lt gt),
      List.getElem?_eq_none (List.length_append ▸ gt)]

/-- The nodes depend on the scripts only. -/
lemma nodes_congr {store store' : Store} (h : store'.scripts = store.scripts) (id : ScriptId) :
    store'.nodes id = store.nodes id := by
  rw [nodes, nodes, get?, get?, h]

/-- A script is found by its name if and only if the store has one of this name. -/
lemma idOf?_isSome_iff {store : Store} {name : Text} :
    (store.idOf? name).isSome = true ↔ name ∈ store.scripts.map Script.name := by
  rw [idOf?, List.findIdx?_isSome, List.any_eq_true, List.mem_map]
  simp

/-- A name that is not taken is added last, under the next number. -/
lemma insert_inv {store store' : Store} {name nodes id}
    (h : store.insert? name nodes = some (id, store')) :
    name ∉ store.scripts.map Script.name ∧ id = store.size ∧
      store' = { store with scripts := store.scripts ++ [{ id := store.size, name, nodes }] } := by
  unfold insert? at h
  split at h
  · simp at h
  · rename_i new
    cases h
    exact ⟨mt idOf?_isSome_iff.2 new, rfl, rfl⟩

end Store

namespace Machine

/-- The shapes of the nodes of a script. -/
def shapes (m : Machine) (script : ScriptId) : List Shape :=
  (m.nodes script).map Node.toShape

/-- What is neither a record nor a script: the current script, the depth, the interrupt and the
journal. -/
def frame (m : Machine) : Option ScriptId × Nat × Bool × List Event :=
  (m.store.current, m.depth, m.interrupted, m.journal)

variable (m : Machine)

variable {m} in
/-- The shapes of a script can be read off the outlines. -/
lemma shapes_eq {m' : Machine} (h : m'.store.outlines = m.store.outlines) (id : ScriptId) :
    m'.shapes id = m.shapes id := by
  simp only [shapes, nodes, Store.map_toShape_nodes, h]

variable {m} in
/-- A shape is not lost when scripts are added. -/
lemma shapes_of_grown {m' : Machine} (h : m.store.outlines <+: m'.store.outlines) {id : ScriptId}
    {i : Nat} {shape} (hs : (m.shapes id)[i]? = some shape) : m'.shapes id = m.shapes id := by
  obtain ⟨added, e⟩ := h
  simp only [shapes, nodes, Store.map_toShape_nodes] at hs ⊢
  cases ho : m.store.outlines[id]? with
  | none => simp [ho] at hs
  | some o =>
    have lt := (List.getElem?_eq_some_iff.1 ho).1
    rw [← e, List.getElem?_append_left lt, ho]

/-- The number of a script is its place. -/
def Numbered : Prop :=
  ∀ ⦃i : Nat⦄ ⦃o : Outline⦄, m.store.outlines[i]? = some o → o.id = i

variable {m} in
/-- A script is found under its own number. -/
lemma Numbered.script_id (num : m.Numbered) {id s} (h : m.store.get? id = some s) : s.id = id :=
  num (o := s.outline) (by simpa [Store.outlines] using ⟨s, h, rfl⟩)

variable {m} in
/-- Scripts are still numbered if their outlines are the same. -/
lemma Numbered.congr (num : m.Numbered) {m' : Machine}
    (outlines : m'.store.outlines = m.store.outlines) : m'.Numbered :=
  fun _ _ ho => num (outlines ▸ ho)

variable {m} in
/-- Filling in placeholders goes node by node. -/
lemma Numbered.nodes_substituteAll (num : m.Numbered) (id : ScriptId) :
    m.substituteAll.nodes id = (m.nodes id).map (Node.substitute m.symbols id) := by
  refine (Store.nodes_map m.store _ id).trans ?_
  unfold nodes Store.nodes
  cases h : m.store.get? id with
  | none => rfl
  | some s =>
    simp [Script.substitute, Script.mapNodes, num.script_id h]

variable {m} in
/-- Where there is nothing to fill in, nothing changes. -/
lemma substituteAll_eq_self (h : ∀ s ∈ m.store.scripts, ∀ node ∈ s.nodes,
    node.substitute m.symbols s.id = node) : m.substituteAll = m := by
  have same : ∀ s ∈ m.store.scripts, s.substitute m.symbols = s := by
    intro s mem
    have nodes : s.nodes.map (Node.substitute m.symbols s.id) = s.nodes :=
      (List.map_congr_left (h s mem)).trans (List.map_id _)
    rw [Script.substitute, Script.mapNodes, nodes]
  have scripts : m.store.scripts.map (Script.substitute m.symbols) = m.store.scripts :=
    (List.map_congr_left same).trans (List.map_id _)
  rw [substituteAll, Store.map, scripts]

/-- The nodes that show a variable follow its change. -/
lemma nodes_propagate_follow (address : Address) (old new : Text) (id : ScriptId) :
    (m.propagate address old new .follow).nodes id = (m.nodes id).map fun node =>
      if node.bound = some address then node.follow (Text.trim old) (Text.trim new) else node := by
  refine (Store.nodes_map m.store _ id).trans ?_
  unfold nodes Store.nodes
  cases m.store.get? id <;> rfl

/-- After an overwriting change, the nodes that show the variable hold the new text alone. -/
lemma nodes_propagate_overwrite (address : Address) (old new : Text) (id : ScriptId) :
    (m.propagate address old new .overwrite).nodes id = (m.nodes id).map fun node =>
      if node.bound = some address then node.overwrite (Text.trim new) else node := by
  refine (Store.nodes_map m.store _ id).trans ?_
  unfold nodes Store.nodes
  cases m.store.get? id <;> rfl

/-- Filling in exports nothing. -/
@[simp] lemma exportLists_substituteAll :
    m.substituteAll.store.exportLists = m.store.exportLists := by
  refine Store.exportLists_map (fun s => ?_) m.store
  rfl

/-- Propagating a change exports nothing. -/
@[simp] lemma exportLists_propagate (address : Address) (old new : Text) (p : Propagation) :
    (m.propagate address old new p).store.exportLists = m.store.exportLists := by
  cases p with
  | follow =>
    refine Store.exportLists_map (fun s => ?_) m.store
    rfl
  | overwrite =>
    refine Store.exportLists_map (fun s => ?_) m.store
    rfl

/-- A native call is only noted. -/
lemma logNative_cases (source : Text) (reply : Reply) :
    ∃ interrupted journal, m.logNative source reply = { m with interrupted, journal } := by
  unfold logNative
  dsimp only
  split
  · exact ⟨_, _, rfl⟩
  · exact ⟨_, _, rfl⟩

/-- Filling in keeps the outlines. -/
@[simp] lemma outlines_substituteAll : m.substituteAll.store.outlines = m.store.outlines :=
  Store.outlines_map (Script.outline_substitute m.symbols) m.store

/-- Filling in keeps the number of nodes. -/
@[simp] lemma length_nodes_substituteAll (id : ScriptId) :
    (m.substituteAll.nodes id).length = (m.nodes id).length := by
  have e := congrArg List.length (shapes_eq m.outlines_substituteAll id)
  simpa only [shapes, List.length_map] using e

/-- Propagating a change keeps the outlines. -/
@[simp] lemma outlines_propagate (address : Address) (old new : Text) (p : Propagation) :
    (m.propagate address old new p).store.outlines = m.store.outlines := by
  cases p with
  | follow => exact Store.outlines_map (Script.outline_followChange _ _ _) m.store
  | overwrite => exact Store.outlines_map (Script.outline_overwriteShown _ _) m.store

/-- Propagating a change keeps the frame. -/
@[simp] lemma frame_propagate (address : Address) (old new : Text) (p : Propagation) :
    (m.propagate address old new p).frame = m.frame := by
  cases p <;> rfl

/-- Propagating a change touches no record. -/
@[simp] lemma symbols_propagate (address : Address) (old new : Text) (p : Propagation) :
    (m.propagate address old new p).symbols = m.symbols := by
  cases p <;> rfl

/-- A change of a text reaches the record and then the nodes; at an address without a variable
nothing changes. -/
lemma update_cases (address : Address) (text : Text) (p : Propagation) :
    m.symbols.textAt address = none ∧ m.update address text p = m ∨
      ∃ old, m.symbols.textAt address = some old ∧ m.update address text p =
        { m with symbols := m.symbols.setText address text }.propagate address old text p := by
  unfold update
  split
  · rename_i h
    exact .inl ⟨h, rfl⟩
  · rename_i old h
    exact .inr ⟨old, h, rfl⟩

/-- An update keeps the outlines. -/
@[simp] lemma outlines_update (address : Address) (text : Text) (p : Propagation) :
    (m.update address text p).store.outlines = m.store.outlines := by
  rcases m.update_cases address text p with ⟨_, e⟩ | ⟨old, _, e⟩
  · rw [e]
  · rw [e]
    exact outlines_propagate _ address old text p

/-- An update keeps the frame. -/
@[simp] lemma frame_update (address : Address) (text : Text) (p : Propagation) :
    (m.update address text p).frame = m.frame := by
  rcases m.update_cases address text p with ⟨_, e⟩ | ⟨old, _, e⟩
  · rw [e]
  · rw [e]
    exact frame_propagate _ address old text p

/-- An update exports nothing. -/
@[simp] lemma exportLists_update (address : Address) (text : Text) (p : Propagation) :
    (m.update address text p).store.exportLists = m.store.exportLists := by
  rcases m.update_cases address text p with ⟨_, e⟩ | ⟨old, _, e⟩
  · rw [e]
  · rw [e]
    exact exportLists_propagate _ address old text p

/-- A binding changes the variable that the scope has, or declares a new one. -/
lemma bind_cases (name text : Text) (scope : Scope) :
    (∃ address v, m.symbols.variableIn name scope = some (address, v) ∧
      m.bind name text scope = (m.update address text .follow).substituteAll) ∨
    m.symbols.variableIn name scope = none ∧ m.bind name text scope =
      { m with symbols := m.symbols.declare { name, text, scope } }.substituteAll := by
  unfold bind
  split
  · rename_i address v h
    exact .inl ⟨address, v, h, rfl⟩
  · rename_i h
    exact .inr ⟨h, rfl⟩

/-- A binding keeps the outlines. -/
@[simp] lemma outlines_bind (name text : Text) (scope : Scope) :
    (m.bind name text scope).store.outlines = m.store.outlines := by
  rcases m.bind_cases name text scope with ⟨address, _, _, e⟩ | ⟨_, e⟩
  · rw [e, outlines_substituteAll, outlines_update]
  · rw [e, outlines_substituteAll]

/-- A binding keeps the frame. -/
@[simp] lemma frame_bind (name text : Text) (scope : Scope) :
    (m.bind name text scope).frame = m.frame := by
  rcases m.bind_cases name text scope with ⟨address, _, _, e⟩ | ⟨_, e⟩
  · rw [e]
    exact m.frame_update address text .follow
  · rw [e]
    rfl

/-- An assignment changes the variable that the name means, or declares a new one where the
statement stands. -/
lemma assign_cases (site : Site) (name text : Text) (p : Propagation) :
    (∃ address v, m.symbols.resolve name (m.scopeOf site) = some (address, v) ∧
      m.assign site name text p = (m.update address text p).substituteAll) ∨
    m.assign site name text p = m.bind name text (m.scopeOf site) := by
  unfold assign
  split
  · rename_i address v h
    exact .inl ⟨address, v, h, rfl⟩
  · exact .inr rfl

/-- An assignment keeps the outlines. -/
@[simp] lemma outlines_assign (site : Site) (name text : Text) (p : Propagation) :
    (m.assign site name text p).store.outlines = m.store.outlines := by
  rcases m.assign_cases site name text p with ⟨address, _, _, e⟩ | e
  · rw [e, outlines_substituteAll, outlines_update]
  · rw [e, outlines_bind]

/-- An assignment keeps the frame. -/
@[simp] lemma frame_assign (site : Site) (name text : Text) (p : Propagation) :
    (m.assign site name text p).frame = m.frame := by
  rcases m.assign_cases site name text p with ⟨address, _, _, e⟩ | e
  · rw [e]
    exact m.frame_update address text p
  · rw [e, frame_bind]

/-- An export keeps the outlines. -/
@[simp] lemma outlines_exportAll (site : Site) :
    (m.exportAll site).store.outlines = m.store.outlines := by
  refine Store.outlines_modify (fun s => ?_) m.store _
  rfl

/-- An export touches no node. -/
@[simp] lemma nodes_exportAll (site : Site) (id : ScriptId) :
    (m.exportAll site).nodes id = m.nodes id := by
  refine Store.nodes_modify (fun s => ?_) m.store _ id
  rfl

variable {m} in
/-- What is exported is all that there is, or was exported before. -/
lemma exportLists_exportAll {site : Site} {list}
    (h : some list ∈ (m.exportAll site).store.exportLists) :
    list = m.symbols.addresses ∨ some list ∈ m.store.exportLists := by
  obtain ⟨s, hs, e⟩ := List.mem_map.1 h
  obtain ⟨i, hi⟩ := List.getElem?_of_mem hs
  simp only [exportAll, Store.modify, List.getElem?_modify] at hi
  obtain ⟨s', hs', rfl⟩ := Option.map_eq_some_iff.1 hi
  split at e
  · exact .inl (Option.some.inj e).symm
  · exact .inr (List.mem_map.2 ⟨s', List.mem_of_getElem? hs', e⟩)

/-- An update changes no function. -/
@[simp] lemma function_update (address : Address) (text name : Text) (p : Propagation) :
    (m.update address text p).symbols.function? name = m.symbols.function? name := by
  rcases m.update_cases address text p with ⟨_, e⟩ | ⟨old, _, e⟩
  · rw [e]
  · rw [e, symbols_propagate, Table.function_setText]

/-- A binding changes no function. -/
@[simp] lemma function_bind (name text scope fname) :
    (m.bind name text scope).symbols.function? fname = m.symbols.function? fname := by
  rcases m.bind_cases name text scope with ⟨address, _, _, e⟩ | ⟨_, e⟩
  · rw [e]
    exact m.function_update address text fname .follow
  · rw [e]
    exact m.symbols.function_declare _ fname

end Machine

end Sigil
