import Mathlib.Tactic.Common
import Sigil.Proofs.Node.Filling
import Sigil.Proofs.Symbol.Table

/-!
# Filling in step by step

Variables are declared one after the other, and after each of them the placeholders of a node are
filled in as far as they can be. `Table.Precedes` says that a later table has kept what an earlier
one could fill in. Then it makes no difference that the earlier one was used before
(`Node.value_substitute_later`): the texts that it has filled in open no new placeholders, so the
later table finds all the others where they were.

What a node shows in the end is therefore what the last table fills in (`value_fillAlong`), and what
a name means there is the same in whichever order the variables were declared
(`Awaiting.meaning_declareAll`).
-/

namespace Sigil

/-! ### What tables fill in -/

namespace Table

variable {t later last : Table} {site : Scope} {inside text : Text}

/-- Every text that the table fills in at the site is harmless. -/
def HarmlessAt (t : Table) (site : Scope) : Prop :=
  ∀ ⦃name address v⦄, t.resolve name site = some (address, v) → (Text.trim v.text).Harmless

/-- Every name that means something at the site means it in the later table too: a variable with the
same text, apart from the blanks around it. -/
def Precedes (t later : Table) (site : Scope) : Prop :=
  ∀ ⦃name address v⦄, t.resolve name site = some (address, v) →
    ∃ address' v', later.resolve name site = some (address', v') ∧
      Text.trim v'.text = Text.trim v.text

/-- A placeholder means the trimmed text of the variable that its name stands for. -/
lemma meaning_eq_some_iff : t.meaning site inside = some text ↔
    ∃ address v, t.resolve (Text.trim inside) site = some (address, v) ∧
      Text.trim v.text = text := by
  rw [meaning, Option.map_eq_some_iff, Prod.exists]

/-- What is filled in from a harmless table is harmless. -/
lemma HarmlessAt.meaning (h : t.HarmlessAt site) (inside text : Text)
    (filled : t.meaning site inside = some text) : text.Harmless := by
  obtain ⟨address, v, found, rfl⟩ := meaning_eq_some_iff.1 filled
  exact h found

/-- A table comes before itself. -/
lemma Precedes.refl (t : Table) (site : Scope) : t.Precedes t site :=
  fun _ address v found => ⟨address, v, found, rfl⟩

/-- One table comes before another if a third lies between them. -/
lemma Precedes.trans (h : t.Precedes later site) (h' : later.Precedes last site) :
    t.Precedes last site := by
  intro name address v found
  obtain ⟨address', v', found', e⟩ := h found
  obtain ⟨address'', v'', found'', e'⟩ := h' found'
  exact ⟨address'', v'', found'', e'.trans e⟩

/-- What a placeholder is filled in with is the same in a later table. -/
lemma Precedes.meaning (h : t.Precedes later site) (inside text : Text)
    (filled : t.meaning site inside = some text) : later.meaning site inside = some text := by
  obtain ⟨address, v, found, rfl⟩ := meaning_eq_some_iff.1 filled
  obtain ⟨address', v', found', e⟩ := h found
  exact meaning_eq_some_iff.2 ⟨address', v', found', e⟩

end Table

/-! ### Filling in again -/

namespace Node

variable {table later : Table} {script : ScriptId} {node : Node}

/-- A table that fills in harmless texts leaves no placeholder that it could fill in. -/
lemma unresolved_of_substitute (harmless : table.HarmlessAt (.enclosing script node.parent))
    {inside : Text} (hole : .hole inside ∈ Piece.ofText (node.substitute table script).value) :
    table.resolve (Text.trim inside) (.enclosing script node.parent) = none := by
  rw [value_substitute, Piece.ofText_fill harmless.meaning, Piece.hole_mem_fill] at hole
  simpa [Table.meaning] using hole.2

/-- A node in which harmless texts were filled in has nothing left to fill in. -/
lemma substitute_substitute (harmless : table.HarmlessAt (.enclosing script node.parent)) :
    (node.substitute table script).substitute table script = node.substitute table script := by
  refine substitute_eq_self fun inside hole => ?_
  rw [parent_substitute]
  exact unresolved_of_substitute harmless hole

/-- Whether an earlier table was used before does not matter. -/
lemma value_substitute_later (harmless : table.HarmlessAt (.enclosing script node.parent))
    (precedes : table.Precedes later (.enclosing script node.parent)) :
    ((node.substitute table script).substitute later script).value =
      (node.substitute later script).value := by
  rw [value_substitute later, value_substitute table, parent_substitute,
    Piece.ofText_fill harmless.meaning, Piece.flatMap_fill_fill _ precedes.meaning,
    ← value_substitute]

/-- What a node shows depends on nothing but the texts that are filled in. -/
lemma value_substitute_congr
    (h : ∀ inside, table.meaning (.enclosing script node.parent) inside =
      later.meaning (.enclosing script node.parent) inside) :
    (node.substitute table script).value = (node.substitute later script).value := by
  rw [value_substitute, value_substitute, funext h]

end Node

/-! ### Declaring one variable after the other -/

namespace Table

variable {t : Table} {site : Scope} {v w : Variable} {vs vs' : List Variable}

/-- The variable is new: its scope has none of its name, and the name means nothing at the site if
the variable can be seen from there. -/
structure IsNew (t : Table) (site : Scope) (v : Variable) : Prop where
  scope : t.variableIn v.name v.scope = none
  site : v.scope.visibleFrom site = true → t.resolve v.name site = none

/-- Two variables of the same name belong to different scopes, and at most one of them can be seen
from the site. -/
def Apart (site : Scope) (v w : Variable) : Prop :=
  v.name = w.name → v.scope ≠ w.scope ∧
    ¬ (v.scope.visibleFrom site = true ∧ w.scope.visibleFrom site = true)

/-- The variables are new and apart from each other, so they can be declared in the table in any
order; and the texts that the table then fills in at the site are harmless. -/
structure Awaiting (t : Table) (site : Scope) (vs : List Variable) : Prop where
  ordered : t.Ordered
  new : ∀ v ∈ vs, t.IsNew site v
  apart : vs.Pairwise (Apart site)
  harmless : t.HarmlessAt site
  texts : ∀ v ∈ vs, v.scope.visibleFrom site = true → (Text.trim v.text).Harmless

/-- The table with the variables declared in it one after the other. -/
def declareAll (t : Table) (vs : List Variable) : Table :=
  vs.foldl declare t

/-- It does not matter which of two variables is named first. -/
lemma Apart.symm (h : Apart site v w) : Apart site w v := by
  intro e
  obtain ⟨scope, unseen⟩ := h e.symm
  exact ⟨scope.symm, fun seen => unseen seen.symm⟩

/-- A variable stays new when another one is declared that is apart from it. -/
lemma Ordered.isNew_declare (ord : t.Ordered) (apart : Apart site v w) (new : t.IsNew site w) :
    (t.declare v).IsNew site w where
  scope := (ord.variableIn_declare_of_ne fun e => (apart e).1).trans new.scope
  site visible := by
    refine (ord.resolve_declare_of_ne fun e => ?_).trans (new.site visible)
    exact Bool.eq_false_iff.2 fun seen => (apart e).2 ⟨seen, visible⟩

/-- After a declaration a name means the new variable, or what it meant before. -/
lemma Ordered.resolve_declare_cases (ord : t.Ordered) (new : t.IsNew site v) (name : Text) :
    (v.name = name ∧ v.scope.visibleFrom site = true ∧ t.resolve name site = none ∧
      (t.declare v).resolve name site = some (.number (t.size * stride), v)) ∨
    (v.name = name → v.scope.visibleFrom site = false) ∧
      (t.declare v).resolve name site = t.resolve name site := by
  by_cases e : v.name = name
  · cases visible : v.scope.visibleFrom site with
    | true =>
      subst e
      have unknown := new.site visible
      exact .inl ⟨rfl, rfl, unknown, ord.resolve_declare visible unknown⟩
    | false => exact .inr ⟨fun _ => rfl, ord.resolve_declare_of_ne fun _ => visible⟩
  · exact .inr ⟨fun e' => absurd e' e, ord.resolve_declare_of_ne fun e' => absurd e' e⟩

/-- A table comes before the one in which a new variable is declared. -/
lemma Ordered.precedes_declare (ord : t.Ordered) (new : t.IsNew site v) :
    t.Precedes (t.declare v) site := by
  intro name address w found
  obtain ⟨_, _, unknown, _⟩ | ⟨_, same⟩ := ord.resolve_declare_cases new name
  · cases unknown.symm.trans found
  · exact ⟨address, w, same.trans found, rfl⟩

/-- A new variable is filled in for its name, and nothing else changes. -/
lemma Ordered.meaning_declare (ord : t.Ordered) (new : t.IsNew site v) {inside text : Text} :
    (t.declare v).meaning site inside = some text ↔ t.meaning site inside = some text ∨
      v.scope.visibleFrom site = true ∧ v.name = Text.trim inside ∧ Text.trim v.text = text := by
  obtain ⟨name, visible, unknown, found⟩ | ⟨other, same⟩ :=
    ord.resolve_declare_cases new (Text.trim inside)
  · simp [meaning, unknown, found, name, visible]
  · rw [meaning, same, ← meaning]
    refine ⟨.inl, fun h => h.resolve_right ?_⟩
    rintro ⟨visible, name, _⟩
    cases (other name).symm.trans visible

/-- One variable is declared, and the others are still to come. -/
lemma Awaiting.declare (h : t.Awaiting site (v :: vs)) : (t.declare v).Awaiting site vs := by
  have new := h.new v List.mem_cons_self
  have apart := List.pairwise_cons.1 h.apart
  refine ⟨h.ordered.declare new.scope, fun w mem => ?_, apart.2, ?_, fun w mem => ?_⟩
  · exact h.ordered.isNew_declare (apart.1 w mem) (h.new w (List.mem_cons_of_mem v mem))
  · intro name address w found
    obtain ⟨_, visible, _, found'⟩ | ⟨_, same⟩ := h.ordered.resolve_declare_cases new name
    · cases found'.symm.trans found
      exact h.texts v List.mem_cons_self visible
    · exact h.harmless (same.symm.trans found)
  · exact h.texts w (List.mem_cons_of_mem v mem)

/-- It does not matter in which order variables wait. -/
lemma Awaiting.perm (h : t.Awaiting site vs) (perm : vs.Perm vs') : t.Awaiting site vs' where
  ordered := h.ordered
  new v mem := h.new v (perm.mem_iff.2 mem)
  apart := h.apart.perm perm fun apart => apart.symm
  harmless := h.harmless
  texts v mem := h.texts v (perm.mem_iff.2 mem)

/-- A table comes before the one in which all that wait are declared. -/
lemma Awaiting.precedes_declareAll (h : t.Awaiting site vs) :
    t.Precedes (t.declareAll vs) site := by
  induction vs generalizing t with
  | nil => exact .refl t site
  | cons v vs ih =>
    have first := h.ordered.precedes_declare (h.new v List.mem_cons_self)
    exact first.trans (ih h.declare)

/-- What is filled in was known before, or comes from one of the new variables. -/
lemma Awaiting.meaning_declareAll (h : t.Awaiting site vs) {inside text : Text} :
    (t.declareAll vs).meaning site inside = some text ↔ t.meaning site inside = some text ∨
      ∃ v ∈ vs, v.scope.visibleFrom site = true ∧ v.name = Text.trim inside ∧
        Text.trim v.text = text := by
  induction vs generalizing t with
  | nil => simp [declareAll]
  | cons v vs ih =>
    have first : (t.declare v).meaning site inside = some text ↔ _ :=
      h.ordered.meaning_declare (h.new v List.mem_cons_self)
    have rest : (t.declareAll (v :: vs)).meaning site inside = some text ↔ _ := ih h.declare
    rw [rest, first, or_assoc, List.exists_mem_cons_iff]

/-- The order of the declarations does not matter. -/
lemma Awaiting.meaning_perm (h : t.Awaiting site vs) (perm : vs.Perm vs') (inside : Text) :
    (t.declareAll vs).meaning site inside = (t.declareAll vs').meaning site inside := by
  refine Option.ext fun text => ?_
  rw [h.meaning_declareAll, (h.perm perm).meaning_declareAll]
  simp only [perm.mem_iff]

end Table

namespace Node

/-- Fills in a node before the first of some declarations, and again after each of them. -/
def fillAlong (script : ScriptId) : Table → List Variable → Node → Node
  | table, [], node => node.substitute table script
  | table, v :: vs, node => fillAlong script (table.declare v) vs (node.substitute table script)

/-- What a node shows in the end is what the last table fills in. -/
lemma value_fillAlong {script : ScriptId} {table : Table} {vs : List Variable} {node : Node}
    (h : table.Awaiting (.enclosing script node.parent) vs) :
    (node.fillAlong script table vs).value =
      (node.substitute (table.declareAll vs) script).value := by
  induction vs generalizing table node with
  | nil => rfl
  | cons v vs ih =>
    have rest : (table.declare v).Awaiting
        (.enclosing script (node.substitute table script).parent) vs := by
      rw [parent_substitute]
      exact h.declare
    refine (ih rest).trans ?_
    exact value_substitute_later h.harmless h.precedes_declareAll

/-- Filling in step by step is filling in at once. If the later of two tables means the same by each
name that the earlier one knows, and the texts of the earlier one are harmless, a node that is
filled in with both shows what it shows when it is filled in with the later one alone. So it does
not matter in which order new variables are declared, nor whether a node is filled in once or twice.
-/
theorem substitute_in_steps (script : ScriptId) (node : Node) :
    let site := Scope.enclosing script node.parent
    (∀ table later : Table, table.Precedes later site → table.HarmlessAt site →
      ((node.substitute table script).substitute later script).value =
        (node.substitute later script).value) ∧
    (∀ (table : Table) (vs vs' : List Variable), table.Awaiting site vs → vs.Perm vs' →
      (node.fillAlong script table vs).value = (node.fillAlong script table vs').value) ∧
    ∀ table : Table, table.HarmlessAt site →
      (node.substitute table script).substitute table script = node.substitute table script := by
  intro site
  refine ⟨fun table later precedes harmless => value_substitute_later harmless precedes, ?_,
    fun table harmless => substitute_substitute harmless⟩
  intro table vs vs' awaiting perm
  rw [value_fillAlong awaiting, value_fillAlong (awaiting.perm perm)]
  exact value_substitute_congr (awaiting.meaning_perm perm)

/-- A bracket in front of a placeholder, one in the text filled in, and a placeholder without an end
do not get in the way of what is filled in later, be it harmless or not. -/
theorem substitute_in_steps_bracketed :
    let x : Variable := ⟨['x'], " a]b ".toList, .everywhere⟩
    let y : Variable := ⟨['y'], "[#x]".toList, .everywhere⟩
    let z : Variable := ⟨['y'], "c".toList, .everywhere⟩
    let inner : Variable := ⟨['y'], "d".toList, .bracket 0 7⟩
    let table := ({} : Table).declare x
    let later := table.declare y
    let node : Node := { kind := .string, parent := none, value := "[[#x][#y] [#x".toList }
    table.Precedes later .everywhere ∧ table.HarmlessAt .everywhere ∧
      ((node.substitute table 0).substitute later 0).value = "[a]b[#x] [#x".toList ∧
      (node.fillAlong 0 {} [z, x, inner]).value = "[a]bc [#x".toList := by
  intro x y z inner table later node
  have awaiting : ({} : Table).Awaiting .everywhere [x, z, inner] := by
    refine ⟨.empty, fun _ _ => ⟨rfl, fun _ => rfl⟩, ?_, nofun, ?_⟩
    · simp only [List.pairwise_cons, List.forall_mem_cons, List.not_mem_nil, false_imp_iff,
        implies_true, and_true, List.Pairwise.nil, Table.Apart]
      decide
    · simp only [List.forall_mem_cons, List.not_mem_nil, false_imp_iff, implies_true, and_true]
      exact ⟨fun _ => ⟨by decide, by decide, by decide, by decide⟩,
        fun _ => ⟨by decide, by decide, by decide, by decide⟩, nofun⟩
  have precedes : table.Precedes later .everywhere :=
    awaiting.declare.ordered.precedes_declare ⟨by decide, fun _ => by decide⟩
  have steps := substitute_in_steps 0 node
  refine ⟨precedes, awaiting.declare.harmless, ?_, ?_⟩
  · rw [steps.1 table later precedes awaiting.declare.harmless]
    decide
  · rw [← steps.2.1 {} [x, z, inner] [z, x, inner] awaiting (.swap ..)]
    decide

end Node

end Sigil
