import Mathlib.Tactic.Common
import Sigil.Proofs.Machine.ArrayVariable

/-!
# Writing a variable

Statements store texts under names. Whether a name stands for a variable already is decided by name
and scope, the text is then changed by address, and a new variable gets its address from the size of
the table. `Table.Writes` says what comes of it: the text of one record is changed, or one record is
added, and the name means this record afterwards. `Table.Ordered.writes_setText` and
`Table.Ordered.writes_declare` are the two cases. Assignments and bindings come down to them
(`Integrity.writes_assign`, `Integrity.writes_bind`); they differ only in what counts as a variable
that is there already.
-/

namespace Sigil

namespace Table

/-- A table in which a text was written for a name: in the variable `found`, which keeps its place,
address, name and scope, or else in one that was added for the scope under a new address. All other
records are as they were, and in the scope the name means the one that was written. -/
inductive Writes (t : Table) (name text : Text) (scope : Scope) :
    (found : Option (Address × Variable)) → Table → Prop where
  | changed {t' : Table} {i address v} :
    t.records[i]? = some ⟨address, .variable v⟩ →
    t'.records = t.records.set i ⟨address, .variable { v with text }⟩ →
    t'.resolve name scope = some (address, { v with text }) →
    Writes t name text scope (some (address, v)) t'
  | added {t' : Table} {address} :
    address ∉ t.addresses →
    t'.records = t.records ++ [⟨address, .variable { name, text, scope }⟩] →
    t'.resolve name scope = some (address, { name, text, scope }) →
    Writes t name text scope none t'

variable {t : Table} {name text : Text} {scope : Scope} {address : Address} {v : Variable}

/-- A name means the variable of the scope before any other. -/
lemma resolve_of_variableIn (h : t.variableIn name scope = some (address, v)) :
    t.resolve name scope = some (address, v) := by
  rw [resolve, h]
  rfl

/-- A new text changes one record. -/
lemma Ordered.records_setText_eq_set (ord : t.Ordered) {i : Nat}
    (hi : t.records[i]? = some ⟨address, .variable v⟩) :
    (t.setText address text).records = t.records.set i ⟨address, .variable { v with text }⟩ := by
  rw [records_setText, ord.placed.map_eq_set hi fun _ ne => withText_of_ne ne]
  simp [withText]

/-- Changing the text of the variable that a name means. -/
lemma Ordered.writes_setText (ord : t.Ordered) (found : t.resolve name scope = some (address, v)) :
    t.Writes name text scope (some (address, v)) (t.setText address text) := by
  obtain ⟨i, hi⟩ := List.getElem?_of_mem (mem_variableList.1 (resolve_inv found).1)
  exact .changed hi (ord.records_setText_eq_set hi) (resolve_setText found text)

/-- Declaring a variable that the scope does not have. -/
lemma Ordered.writes_declare (ord : t.Ordered) (name text : Text) (scope : Scope) :
    t.Writes name text scope none (t.declare { name, text, scope }) := by
  exact .added ord.placed.fresh (ord.records_declare _)
    (resolve_of_variableIn (ord.variableIn_declare _))

end Table

section
variable {m : Machine}

/-- A binding writes the variable of the scope. -/
lemma Integrity.writes_bind (int : Integrity m) (name text : Text) (scope : Scope) :
    m.symbols.Writes name text scope (m.symbols.variableIn name scope)
      (m.bind name text scope).symbols := by
  rcases m.bind_cases name text scope with ⟨address, v, found, e⟩ | ⟨new, e⟩
  · have resolved := Table.resolve_of_variableIn found
    have symbols : (m.bind name text scope).symbols = m.symbols.setText address text := by
      rw [e]
      exact int.symbols_update resolved text .follow
    rw [found, symbols]
    exact int.ordered.writes_setText resolved
  · rw [new, e]
    exact int.ordered.writes_declare name text scope

/-- An assignment writes the variable that the name means. -/
lemma Integrity.writes_assign (int : Integrity m) (site : Site) (name text : Text)
    (p : Propagation) :
    m.symbols.Writes name text (m.scopeOf site) (m.symbols.resolve name (m.scopeOf site))
      (m.assign site name text p).symbols := by
  cases found : m.symbols.resolve name (m.scopeOf site) with
  | some pair =>
    obtain ⟨address, v⟩ := pair
    have symbols : (m.assign site name text p).symbols = m.symbols.setText address text := by
      rw [Machine.assign, found]
      exact int.symbols_update found text p
    rw [symbols]
    exact int.ordered.writes_setText found
  | none =>
    have bind : m.assign site name text p = m.bind name text (m.scopeOf site) := by
      rw [Machine.assign, found]
    have unknown : m.symbols.variableIn name (m.scopeOf site) = none := by
      rw [Table.resolve, Option.orElse_eq_orElse, Option.orElse_eq_or, Option.or_eq_none_iff]
        at found
      exact found.1
    have writes := int.writes_bind name text (m.scopeOf site)
    rwa [unknown, ← bind] at writes

end

/-- A write touches one record and is seen by its writer. In the middle of any run, an assignment
changes the text of the variable that the name means where the statement stands, or adds a variable
of the statement's scope if there is none; a binding does the same with the variable of exactly the
given scope. Nothing else in the table changes, and the name means what was written. So a binding in
a bracket leaves alone what the name means everywhere else. -/
theorem Visited.write_touches_one {m : Machine} (h : Visited m) (name text : Text) :
    (∀ (site : Site) (p : Propagation),
      m.symbols.Writes name text (m.scopeOf site) (m.symbols.resolve name (m.scopeOf site))
        (m.assign site name text p).symbols ∧
      (m.assign site name text p).scopeOf site = m.scopeOf site) ∧
    (∀ scope : Scope, m.symbols.Writes name text scope (m.symbols.variableIn name scope)
      (m.bind name text scope).symbols) ∧
    ∀ script index, (m.bind name text (.bracket script index)).symbols.variableIn name .everywhere =
      m.symbols.variableIn name .everywhere := by
  have int := h.integrity
  refine ⟨fun site p => ⟨int.writes_assign site name text p, ?_⟩, int.writes_bind name text, ?_⟩
  · exact Machine.scopeOf_eq (m.outlines_assign site name text p) site
  · intro script index
    have outside := (agreeOutside_bind int name text script index).records
    exact Table.variableIn_congr (by simp) outside name

/-- In the block of a function, a name that is declared everywhere gets a variable of its own. -/
theorem write_touches_one_shadowing :
    let m := (({} : Machine).runSource { loader := .ofList [] } "main".toList
      "@declare \"x = 1\" @func \x7bf\x7d () \x7b \x7d".toList).2
    let after := m.bind ['x'] ['2'] (.bracket 0 5)
    m.symbols.Writes ['x'] ['2'] (.bracket 0 5) none after.symbols ∧
      after.symbols.variableIn ['x'] .everywhere =
        some (.number 0, { name := ['x'], text := ['1'], scope := .everywhere }) := by
  intro m after
  have visited : Visited m := (Reachable.source _ _ _ .start).visited
  obtain ⟨new, known⟩ : m.symbols.variableIn ['x'] (.bracket 0 5) = none ∧
      m.symbols.variableIn ['x'] .everywhere =
        some (.number 0, { name := ['x'], text := ['1'], scope := .everywhere }) := by
    decide +kernel
  obtain ⟨-, bind, kept⟩ := visited.write_touches_one ['x'] ['2']
  exact ⟨new ▸ bind (.bracket 0 5), (kept 0 5).trans known⟩

end Sigil
