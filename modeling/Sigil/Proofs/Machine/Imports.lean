import Mathlib.Data.Set.Card
import Mathlib.Logic.Relation
import Mathlib.Tactic.Common
import Sigil.Proofs.Machine.Lines
import Sigil.Proofs.Node.Filling

/-!
# Imports

A script that imports others runs each of them where it stands, unless it was loaded before. So the
scripts are gone through in depth: a script is loaded before those that it imports and finished
after them. A `Tour` notes which scripts were entered and which were left, and `Tours` is going
through a list of imports. What is entered and left, and in which order, is shown for tours alone,
by induction on them.

That the machine makes such a tour is shown for scripts that print their name behind their imports
(`Library`). The scripts that are entered and not yet left are nested in each other, and all of them
are loaded; so calls are never nested more deeply than there are scripts, and a library that is not
larger than the limit allows is loaded without a failure (`Library.loads`).
-/

namespace Sigil

/-- A script is the other one, or it imports one from which the other can be reached. -/
def Reaches (imports : Text → List Text) : Text → Text → Prop :=
  Relation.ReflTransGen fun a b => b ∈ imports a

/-- A script is among those that it imports, over any number of others. -/
def OnCycle (imports : Text → List Text) (name : Text) : Prop :=
  Relation.TransGen (fun a b => b ∈ imports a) name name

/-! ### Tours -/

/-- The scripts that were entered and those that were left, in order. -/
structure Tour where
  entered : List Text
  left : List Text

/-- Going through a list of imports leads from one tour to another. -/
inductive Tours (imports : Text → List Text) : List Text → Tour → Tour → Prop where
  | nil {t} :
    Tours imports [] t t
  | known {name names t t'} :
    name ∈ t.entered →
    Tours imports names t t' →
    Tours imports (name :: names) t t'
  | enter {name names t inner t'} :
    name ∉ t.entered →
    Tours imports (imports name) ⟨t.entered ++ [name], t.left⟩ inner →
    Tours imports names ⟨inner.entered, inner.left ++ [name]⟩ t' →
    Tours imports (name :: names) t t'

/-- Every name stands behind all that it imports. -/
def Sorted (imports : Text → List Text) (names : List Text) : Prop :=
  ∀ ⦃before name after⦄, names = before ++ name :: after → imports name ⊆ before

variable {imports : Text → List Text}

/-- A name can be added at the end if all that it imports is there. -/
lemma Sorted.snoc {names : List Text} {name : Text} (h : Sorted imports names)
    (behind : imports name ⊆ names) : Sorted imports (names ++ [name]) := by
  intro before last after e
  obtain rfl | ⟨rest, x, rfl⟩ := List.eq_nil_or_concat after
  · obtain ⟨same, own⟩ := List.append_inj' e rfl
    cases own
    exact same ▸ behind
  · rw [List.concat_eq_append, ← List.cons_append, ← List.append_assoc] at e
    exact h (List.append_inj' e rfl).1

namespace Tours

variable {names names' : List Text} {t t' t'' : Tour}

/-- Going through two lists of imports is going through one and then the other. -/
lemma append (h : Tours imports names t t') (h' : Tours imports names' t' t'') :
    Tours imports (names ++ names') t t'' := by
  induction h with
  | nil => exact h'
  | known mem _ ih => exact .known mem (ih h')
  | enter new inner _ _ ih => exact .enter new inner (ih h')

/-- What is entered is also left. -/
lemma grows (h : Tours imports names t t') :
    ∃ new, t'.entered = t.entered ++ new ∧ t'.left.Perm (t.left ++ new) := by
  induction h with
  | nil => exact ⟨[], (List.append_nil _).symm, .of_eq (List.append_nil _).symm⟩
  | known _ _ ih => exact ih
  | @enter name _ t _ _ _ _ _ inner rest =>
    obtain ⟨below, entered, left⟩ := inner
    obtain ⟨later, entered', left'⟩ := rest
    refine ⟨name :: below ++ later, ?_, ?_⟩
    · rw [entered', entered]
      simp
    · have own : (t.left ++ below ++ [name]).Perm (t.left ++ name :: below) := by
        rw [List.append_assoc]
        exact List.perm_append_comm.append_left t.left
      have both := left'.trans (((left.append_right [name]).trans own).append_right later)
      rwa [List.append_assoc] at both

/-- What was entered stays entered. -/
lemma entered_subset (h : Tours imports names t t') : t.entered ⊆ t'.entered := by
  obtain ⟨new, entered, -⟩ := h.grows
  exact entered ▸ List.subset_append_left _ _

/-- What was left stays left. -/
lemma left_subset (h : Tours imports names t t') : t.left ⊆ t'.left := by
  obtain ⟨new, -, left⟩ := h.grows
  exact fun v mem => left.mem_iff.2 (List.mem_append_left _ mem)

/-- What was entered on the way was left again. -/
lemma left_of_entered (h : Tours imports names t t') {v : Text} (mem : v ∈ t'.entered) :
    v ∈ t.entered ∨ v ∈ t'.left := by
  obtain ⟨new, entered, left⟩ := h.grows
  rw [entered] at mem
  exact (List.mem_append.1 mem).imp_right fun mem => left.mem_iff.2 (List.mem_append_right _ mem)

/-- Nothing is left out: all that was to be gone through was entered, and so were the imports of
what was entered on the way. -/
lemma closed (h : Tours imports names t t') :
    names ⊆ t'.entered ∧ ∀ v ∈ t'.entered, v ∈ t.entered ∨ imports v ⊆ t'.entered := by
  induction h with
  | nil => exact ⟨List.nil_subset _, fun v mem => .inl mem⟩
  | known mem rest ih =>
    exact ⟨List.cons_subset.2 ⟨rest.entered_subset mem, ih.1⟩, ih.2⟩
  | @enter name names t inner t' new below rest ih ih' =>
    have onward : inner.entered ⊆ t'.entered := rest.entered_subset
    have own : name ∈ inner.entered :=
      below.entered_subset (List.mem_append_right _ List.mem_cons_self)
    refine ⟨List.cons_subset.2 ⟨onward own, ih'.1⟩, fun v mem => ?_⟩
    obtain mem | closed := ih'.2 v mem
    · obtain mem | closed := ih.2 v mem
      · obtain mem | mem := List.mem_append.1 mem
        · exact .inl mem
        · cases List.mem_singleton.1 mem
          exact .inr (List.Subset.trans ih.1 onward)
      · exact .inr (List.Subset.trans closed onward)
    · exact .inr closed

/-- Without cycles, every script is left after all that it imports. A script that was entered and
not left leads to those that are gone through now. -/
lemma sorted {root : Text} (h : Tours imports names t t')
    (acyclic : ∀ name, Reaches imports root name → ¬ OnCycle imports name)
    (reached : ∀ name ∈ names, Reaches imports root name)
    (leading : ∀ v ∈ t.entered, v ∈ t.left ∨
      ∀ name ∈ names, Relation.TransGen (fun a b => b ∈ imports a) v name)
    (before : Sorted imports t.left) : Sorted imports t'.left := by
  induction h with
  | nil => exact before
  | known _ _ ih =>
    refine ih (fun name mem => reached name (List.mem_cons_of_mem _ mem)) (fun v mem => ?_) before
    exact (leading v mem).imp_right fun leads name mem => leads name (List.mem_cons_of_mem _ mem)
  | @enter name names t inner t' new below rest ih ih' =>
    have here : Reaches imports root name := reached name List.mem_cons_self
    -- what is open leads to the script, and through it to its imports
    have leading' : ∀ v ∈ t.entered ++ [name], v ∈ t.left ∨
        ∀ b ∈ imports name, Relation.TransGen (fun a b => b ∈ imports a) v b := by
      intro v mem
      obtain mem | mem := List.mem_append.1 mem
      · exact (leading v mem).imp_right fun leads b mem => (leads name List.mem_cons_self).tail mem
      · cases List.mem_singleton.1 mem
        exact .inr fun b mem => .single mem
    have inside : Sorted imports inner.left := ih (fun b mem => here.tail mem) leading' before
    -- so an import that is still open would lead back to itself
    have behind : imports name ⊆ inner.left := by
      intro b mem
      obtain opened | left := below.left_of_entered (below.closed.1 mem)
      · obtain left | leads := leading' b opened
        · exact below.left_subset left
        · exact absurd (leads b mem) (acyclic b (here.tail mem))
      · exact left
    refine ih' (fun name mem => reached name (List.mem_cons_of_mem _ mem)) (fun v mem => ?_)
      (inside.snoc behind)
    obtain opened | left := below.left_of_entered mem
    · obtain opened | own := List.mem_append.1 opened
      · refine (leading v opened).imp (fun left => ?_) fun leads name mem =>
          leads name (List.mem_cons_of_mem _ mem)
        exact List.mem_append_left _ (below.left_subset left)
      · exact .inl (List.mem_append_right _ own)
    · exact .inl (List.mem_append_left _ left)

end Tours

/-! ### Libraries -/

/-- The statements of a script: its imports, and a print of its name. -/
def Library.script (imports : Text → List Text) (name : Text) : List Phrase :=
  (imports name).map (Phrase.mk .usingFile) ++ [⟨.print, name⟩]

/-- The host has all scripts that can be reached from a root, each consists of its imports and a
print of its name, and there is at most one more of them than imports can be nested. -/
structure Library (host : Host) (imports : Text → List Text) (root : Text) : Prop where
  trimmed : ∀ ⦃name⦄, Reaches imports root name → Text.trim name = name
  ne : ∀ ⦃name⦄, Reaches imports root name → name ≠ []
  written : ∀ ⦃name⦄, Reaches imports root name → ∃ source, host.loader name = .ok source ∧
    Nodes.ofSource source = (Library.script imports name).flatMap Phrase.nodes
  few : {name | Reaches imports root name}.encard ≤ host.depthLimit + 1

/-- The scripts that a machine has loaded are the ones entered, and the lines that it has printed
the ones left. -/
def Machine.tour (m : Machine) : Tour :=
  ⟨m.store.scripts.map Script.name, m.output⟩

/-- What is known of a machine that has loaded scripts of a library and nothing else. -/
structure Library.Holds (imports : Text → List Text) (root : Text) (m : Machine) : Prop where
  running : m.interrupted = false
  symbols : m.symbols = {}
  nodup : m.tour.entered.Nodup
  reached : ∀ name ∈ m.tour.entered, Reaches imports root name
  nodes : ∀ ⦃id : Nat⦄ ⦃name⦄, m.tour.entered[id]? = some name →
    m.nodes id = (Library.script imports name).flatMap Phrase.nodes

namespace Library

variable {host : Host} {root name : Text} {m m' : Machine}

/-- There is room for every script that can be reached. -/
lemma length_le (library : Library host imports root) {names : List Text} (nodup : names.Nodup)
    (reached : ∀ name ∈ names, Reaches imports root name) : names.length ≤ host.depthLimit + 1 := by
  have subset : (names.toFinset : Set Text) ⊆ {name | Reaches imports root name} := by
    intro name mem
    exact reached name (List.mem_toFinset.1 mem)
  have le := (Set.encard_le_encard subset).trans library.few
  rw [Set.encard_coe_eq_coe_finsetCard, List.toFinset_card_of_nodup nodup] at le
  exact_mod_cast le

/-- While a script is missing, there are fewer loaded than allowed. -/
lemma room (library : Library host imports root) (holds : Holds imports root m)
    (reached : Reaches imports root name) (new : name ∉ m.tour.entered) :
    m.tour.entered.length ≤ host.depthLimit := by
  have le := library.length_le (List.nodup_cons.2 ⟨new, holds.nodup⟩)
    (List.forall_mem_cons.2 ⟨reached, holds.reached⟩)
  exact Nat.le_of_succ_le_succ le

/-- Running, records and scripts are all that it takes to hold the library. -/
lemma Holds.congr (holds : Holds imports root m) (running : m'.interrupted = m.interrupted)
    (symbols : m'.symbols = m.symbols) (scripts : m'.store.scripts = m.store.scripts) :
    Holds imports root m' := by
  have entered : m'.tour.entered = m.tour.entered := congrArg (List.map Script.name) scripts
  refine ⟨running.trans holds.running, symbols.trans holds.symbols, entered ▸ holds.nodup,
    entered ▸ holds.reached, fun id name found => ?_⟩
  rw [Machine.nodes, Store.nodes_congr scripts]
  exact holds.nodes (entered ▸ found)

/-- A script of the library is added. -/
lemma Holds.add (holds : Holds imports root m) {s : Script} (new : s.name ∉ m.tour.entered)
    (reached : Reaches imports root s.name)
    (written : s.nodes = (script imports s.name).flatMap Phrase.nodes)
    (running : m'.interrupted = m.interrupted) (symbols : m'.symbols = m.symbols)
    (scripts : m'.store.scripts = m.store.scripts ++ [s]) : Holds imports root m' := by
  have entered : m'.tour.entered = m.tour.entered ++ [s.name] := by
    rw [Machine.tour, scripts, List.map_append]
    rfl
  refine ⟨running.trans holds.running, symbols.trans holds.symbols, ?_, ?_, ?_⟩
  · rw [entered, ← List.concat_eq_append]
    exact holds.nodup.concat new
  · intro name mem
    rw [entered] at mem
    obtain mem | own := List.mem_append.1 mem
    · exact holds.reached name mem
    · cases List.mem_singleton.1 own
      exact reached
  · intro id name found
    have size : m.tour.entered.length = m.store.size := List.length_map _
    have nodes : m'.nodes id = if id = m.store.size then s.nodes else m.nodes id :=
      (Store.nodes_congr scripts id).trans (m.store.nodes_snoc s id)
    rw [entered, List.getElem?_append] at found
    rw [nodes]
    split at found
    -- an older script keeps its nodes
    case isTrue lt =>
      rw [if_neg (by omega)]
      exact holds.nodes found
    case isFalse ge =>
      obtain ⟨last, rfl⟩ : id = m.store.size ∧ s.name = name := by
        rw [List.getElem?_singleton] at found
        split at found
        · cases found
          exact ⟨by omega, rfl⟩
        · cases found
      rw [if_pos last, written]

/-! ### Running a script of the library -/

/-- What is known when the script of a name runs, so many statements were carried out, and this was
the machine before the first. -/
structure Underway (imports : Text → List Text) (root name : Text) (id : ScriptId)
    (start : Machine) (k : Nat) (m : Machine) : Prop where
  holds : Holds imports root m
  own : m.tour.entered[id]? = some name
  depth : m.depth = start.depth
  nested : m.depth < m.tour.entered.length
  tour : ∃ t, Tours imports ((imports name).take k) start.tour t ∧
    m.tour = ⟨t.entered, t.left ++ if (imports name).length < k then [name] else []⟩

/-- Any script that is new can be loaded and run, if this many are missing at most. -/
def Loads (host : Host) (imports : Text → List Text) (root : Text) (missing : Nat) : Prop :=
  ∀ ⦃m name⦄, Holds imports root m → Reaches imports root name → name ∉ m.tour.entered →
    m.depth ≤ m.tour.entered.length → host.depthLimit < m.tour.entered.length + missing →
    ∃ source m', host.loader name = .ok source ∧
      Gives host (.ofTask host (.source name source) m) (.ok none m') ∧
      Holds imports root m' ∧ m'.depth = m.depth ∧ Tours imports [name] m.tour m'.tour

/-- The beginning of a statement enters no script and leaves none. -/
lemma tour_beginning (m : Machine) (site : Site) : (m.beginning site).tour = m.tour := by
  have unchanged := Machine.Unchanged.log m (.began site m.store.current m.depth) rfl rfl
  exact congrArg (Tour.mk _) unchanged.output

/-- A line that is printed is that of a script that is left. -/
lemma tour_printed (m : Machine) (line : Text) :
    (m.log (.printed line)).tour = ⟨m.tour.entered, m.tour.left ++ [line]⟩ := by
  have output : (m.log (.printed line)).output = m.output ++ [line] := by
    rw [Machine.output, Machine.log, List.reverse_cons, List.filterMap_append]
    rfl
  exact congrArg (Tour.mk _) output

section
variable {id : ScriptId} {start : Machine} {k : Nat} {p : Phrase}

/-- The nodes of a script under way are those of its phrases. -/
lemma Underway.recites (h : Underway imports root name id start k m) :
    m.Recites id ((script imports name).map Phrase.word) :=
  Phrase.recites (h.holds.nodes h.own)

/-- The word of a phrase is found at its place. -/
lemma Underway.textAt (h : Underway imports root name id start k m) {i : Nat}
    (hi : (script imports name)[i]? = some p) : m.textAt ⟨id, 2 * i + 1⟩ = p.text := by
  rw [Machine.textAt, h.holds.nodes h.own, (Phrase.getElem?_nodes _ i).2, hi]
  rfl

/-- An import that was carried out. -/
lemma Underway.next (h : Underway imports root name id start k m) {other : Text}
    (hk : (imports name)[k]? = some other) (holds : Holds imports root m')
    (depth : m'.depth = m.depth) (tours : Tours imports [other] m.tour m'.tour) :
    Underway imports root name id start (k + 1) m' := by
  obtain ⟨lt, -⟩ := List.getElem?_eq_some_iff.1 hk
  obtain ⟨new, entered, -⟩ := tours.grows
  refine ⟨holds, ?_, depth.trans h.depth, ?_, m'.tour, ?_, ?_⟩
  · rw [entered]
    exact List.getElem?_append_left (List.getElem?_eq_some_iff.1 h.own).1 ▸ h.own
  · have nested := h.nested
    rw [depth, entered, List.length_append]
    omega
  · obtain ⟨t, earlier, e⟩ := h.tour
    rw [if_neg (by omega), List.append_nil] at e
    have taken : (imports name).take (k + 1) = (imports name).take k ++ [other] := by
      rw [List.take_add_one, hk]
      rfl
    rw [taken]
    rw [e] at tours
    exact earlier.append tours
  · rw [if_neg (by omega), List.append_nil]

/-- The string of an import is the name of a script. -/
lemma Underway.require_using (h : Underway imports root name id start k m) {other : Text}
    (hk : (imports name)[k]? = some other) :
    ((script imports name).map Phrase.word)[k]? = some .usingFile ∧
      (m.beginning ⟨id, 2 * k⟩).require ⟨id, 2 * k⟩ .usingFile .string 0 = .ok other := by
  have phrase : (script imports name)[k]? = some ⟨.usingFile, other⟩ := by
    obtain ⟨lt, -⟩ := List.getElem?_eq_some_iff.1 hk
    rw [script, List.getElem?_append_left (by rwa [List.length_map]), List.getElem?_map, hk]
    rfl
  have word : ((script imports name).map Phrase.word)[k]? = some .usingFile := by
    rw [List.getElem?_map, phrase]
    rfl
  exact ⟨word, (h.recites.require_string word .usingFile).trans (congrArg _ (h.textAt phrase))⟩

/-- An import of a script that is loaded does nothing. -/
lemma Underway.gives_known (library : Library host imports root)
    (h : Underway imports root name id start k m) {other : Text}
    (hk : (imports name)[k]? = some other) (reached : Reaches imports root other)
    (known : other ∈ m.tour.entered) :
    ∃ m', Gives host (.ofTask host (.statement ⟨id, 2 * k⟩) m) (.ok none m') ∧
      Underway imports root name id start (k + 1) m' := by
  obtain ⟨word, require⟩ := h.require_using hk
  have loaded : ((m.beginning ⟨id, 2 * k⟩).store.idOf? other).isSome = true :=
    Store.idOf?_isSome_iff.2 known
  have read : Statement.ofKeyword host (m.beginning ⟨id, 2 * k⟩) ⟨id, 2 * k⟩ .usingFile =
      .ok .nothing := by
    simp [Statement.ofKeyword, Statement.readUsing, require, library.trimmed reached,
      library.ne reached, loaded, Bind.bind, Except.bind]
  refine ⟨_, h.recites.gives_statement word read .done, ?_⟩
  refine h.next hk (h.holds.congr rfl rfl rfl) rfl ?_
  rw [tour_beginning]
  exact .known known .nil

/-- An import of a script that is not loaded loads and runs it. -/
lemma Underway.gives_new (library : Library host imports root)
    (h : Underway imports root name id start k m) {missing : Nat}
    (loads : Loads host imports root missing)
    (room : host.depthLimit < m.tour.entered.length + missing) {other : Text}
    (hk : (imports name)[k]? = some other) (reached : Reaches imports root other)
    (new : other ∉ m.tour.entered) :
    ∃ m', Gives host (.ofTask host (.statement ⟨id, 2 * k⟩) m) (.ok none m') ∧
      Underway imports root name id start (k + 1) m' := by
  obtain ⟨word, require⟩ := h.require_using hk
  have unloaded : ((m.beginning ⟨id, 2 * k⟩).store.idOf? other).isSome = false :=
    Bool.eq_false_iff.2 (mt Store.idOf?_isSome_iff.1 new)
  let deeper := { m.beginning ⟨id, 2 * k⟩ with depth := m.depth + 1 }
  have tour : deeper.tour = m.tour := tour_beginning m ⟨id, 2 * k⟩
  obtain ⟨source, m', found, gives, holds, depth, tours⟩ :=
    @loads deeper other (h.holds.congr rfl rfl rfl) reached (tour ▸ new) (tour ▸ h.nested)
      (tour ▸ room)
  have read : Statement.ofKeyword host (m.beginning ⟨id, 2 * k⟩) ⟨id, 2 * k⟩ .usingFile =
      .ok (.load other source) := by
    simp [Statement.ofKeyword, Statement.readUsing, require, library.trimmed reached,
      library.ne reached, unloaded, found, Bind.bind, Except.bind]
  -- there are more scripts than levels in use, and a script that is still missing
  have levels : (m.beginning ⟨id, 2 * k⟩).depth < host.depthLimit :=
    h.nested.trans_le (library.room h.holds reached new)
  refine ⟨{ m' with depth := m'.depth - 1 }, h.recites.gives_statement word read ?_, ?_⟩
  · rw [Course.perform, Course.deeper, if_pos levels]
    exact .await gives .done
  · refine h.next hk (holds.congr rfl rfl rfl) ?_ ?_
    · show m'.depth - 1 = m.depth
      rw [depth]
      rfl
    · exact tour ▸ tours

/-- The name is printed when all imports were carried out. -/
lemma Underway.gives_print
    (h : Underway imports root name id start (imports name).length m) :
    ∃ m', Gives host (.ofTask host (.statement ⟨id, 2 * (imports name).length⟩) m) (.ok none m') ∧
      Underway imports root name id start ((imports name).length + 1) m' := by
  have phrase : (script imports name)[(imports name).length]? = some ⟨.print, name⟩ := by
    rw [script, List.getElem?_append_right (List.length_map _).le, List.length_map, Nat.sub_self]
    rfl
  have word : ((script imports name).map Phrase.word)[(imports name).length]? = some .print := by
    rw [List.getElem?_map, phrase]
    rfl
  have gives := @Machine.Recites.gives_print host m id _ _ h.recites word
  rw [h.textAt phrase] at gives
  refine ⟨_, gives, h.holds.congr rfl rfl rfl, h.own, h.depth, h.nested, ?_⟩
  obtain ⟨t, earlier, e⟩ := h.tour
  rw [List.take_length] at earlier
  refine ⟨t, (List.take_of_length_le (Nat.le_succ _)).symm ▸ earlier, ?_⟩
  rw [tour_printed, tour_beginning, e, if_neg (Nat.lt_irrefl _), if_pos (Nat.lt_succ_self _),
    List.append_nil]

/-- Every statement of the script is carried out. -/
lemma Underway.gives_statement (library : Library host imports root)
    (h : Underway imports root name id start k m) (reached : Reaches imports root name)
    {missing : Nat} (loads : Loads host imports root missing)
    (room : host.depthLimit < start.tour.entered.length + missing)
    (hk : (script imports name)[k]? = some p) :
    ∃ m', Gives host (.ofTask host (.statement ⟨id, 2 * k⟩) m) (.ok none m') ∧
      Underway imports root name id start (k + 1) m' := by
  have lt : k < (imports name).length + 1 := by
    simpa [script] using (List.getElem?_eq_some_iff.1 hk).1
  obtain lt | rfl := Nat.lt_succ_iff_lt_or_eq.1 lt
  · obtain ⟨t, tours, e⟩ := h.tour
    obtain ⟨new, entered, -⟩ := tours.grows
    have more : host.depthLimit < m.tour.entered.length + missing := by
      rw [e, entered, List.length_append]
      omega
    have hk' := List.getElem?_eq_getElem lt
    have reached' : Reaches imports root (imports name)[k] := reached.tail (List.getElem_mem lt)
    by_cases known : (imports name)[k] ∈ m.tour.entered
    · exact h.gives_known library hk' reached' known
    · exact h.gives_new library loads more hk' reached' known
  · exact h.gives_print

end

/-- A script that is new is loaded, and then it is to be run. -/
lemma Underway.enter (holds : Holds imports root m) (reached : Reaches imports root name)
    (new : name ∉ m.tour.entered) (nested : m.depth ≤ m.tour.entered.length) {source : Text}
    (written : Nodes.ofSource source = (script imports name).flatMap Phrase.nodes) :
    ∃ store start, m.store.insert? name (Nodes.ofSource source) = some (m.store.size, store) ∧
      ({ m with store }.log (.loaded name)).substituteAll.setCurrent (some m.store.size) = start ∧
      start.depth = m.depth ∧ start.tour = ⟨m.tour.entered ++ [name], m.tour.left⟩ ∧
      Underway imports root name m.store.size start 0 start := by
  let store : Store := { m.store with scripts := m.store.scripts ++
    [{ id := m.store.size, name, nodes := Nodes.ofSource source }] }
  let start := ({ m with store }.log (.loaded name)).setCurrent (some m.store.size)
  have added : m.store.insert? name (Nodes.ofSource source) = some (m.store.size, store) := by
    rw [Store.insert?, if_neg (mt Store.idOf?_isSome_iff.1 new)]
  -- without variables there is nothing to fill in
  have same : ({ m with store }.log (.loaded name)).substituteAll =
      { m with store }.log (.loaded name) := by
    refine Machine.substituteAll_eq_self fun s _ node _ => Node.substitute_eq_self fun _ _ => ?_
    exact holds.symbols ▸ rfl
  have tour : start.tour = ⟨m.tour.entered ++ [name], m.tour.left⟩ := by
    have unchanged := Machine.Unchanged.log { m with store } (.loaded name) rfl rfl
    have entered : store.scripts.map Script.name = m.tour.entered ++ [name] := List.map_append ..
    exact congr (congrArg Tour.mk entered) unchanged.output
  have size : m.tour.entered.length = m.store.size := List.length_map _
  refine ⟨store, start, added, congrArg (Machine.setCurrent · _) same, rfl, tour, ?_⟩
  refine ⟨holds.add new reached written rfl rfl rfl, ?_, rfl, ?_, start.tour, .nil, ?_⟩
  · rw [tour, ← size]
    exact List.getElem?_concat_length
  · rw [tour, List.length_append]
    exact Nat.lt_succ_of_le nested
  · rw [if_neg (Nat.not_lt_zero _), List.append_nil]

/-- One more script can be missing. -/
lemma loads_succ (library : Library host imports root) {missing : Nat}
    (loads : Loads host imports root missing) : Loads host imports root (missing + 1) := by
  intro m name holds reached new nested room
  obtain ⟨source, found, written⟩ := library.written reached
  obtain ⟨store, start, added, loaded, depth, tour, beginning⟩ :=
    Underway.enter holds reached new nested written
  -- the script itself is not missing any more, so for its imports one less is missing
  have more : host.depthLimit < start.tour.entered.length + missing := by
    rw [tour, List.length_append, List.length_singleton]
    omega
  have statement : ∀ ⦃k m' word⦄, ((script imports name).map Phrase.word)[k]? = some word →
      Underway imports root name m.store.size start k m' → ∃ value m'',
        Gives host (.ofTask host (.statement ⟨m.store.size, 2 * k⟩) m') (.ok value m'') ∧
          Underway imports root name m.store.size start (k + 1) m'' := by
    intro k m' word hk underway
    rw [List.getElem?_map, Option.map_eq_some_iff] at hk
    obtain ⟨p, hk, -⟩ := hk
    exact ⟨none, underway.gives_statement library reached loads more hk⟩
  obtain ⟨m', gives, done⟩ := Machine.Recites.gives_script ((imports name).length + 1)
    (by simp [script]) (fun k m' underway => ⟨underway.recites, underway.holds.running⟩)
    statement beginning
  subst loaded
  refine ⟨source, _, found, gives_source added gives, done.holds.congr rfl rfl rfl,
    done.depth.trans depth, ?_⟩
  obtain ⟨t, tours, e⟩ := done.tour
  rw [List.take_of_length_le (Nat.le_succ _), tour] at tours
  rw [if_pos (Nat.lt_succ_self _)] at e
  have left : (m'.setCurrent store.current).tour = ⟨t.entered, t.left ++ [name]⟩ := e
  rw [left]
  exact .enter new tours .nil

/-- Scripts of a library can be loaded, however many are missing. -/
lemma loads (library : Library host imports root) (missing : Nat) :
    Loads host imports root missing := by
  induction missing with
  | zero =>
    intro m name holds reached new _ room
    exact absurd room (Nat.not_lt.2 (library.room holds reached new))
  | succ missing ih => exact library.loads_succ ih

end Library

/-! ### Libraries written out -/

/-- A name that a script can have. -/
@[mk_iff]
structure Text.IsScriptName (name : Text) : Prop where
  trimmed : trim name = name
  ne : name ≠ []
  quotable : Phrase.Quotable name

instance (name : Text) : Decidable name.IsScriptName :=
  decidable_of_iff _ (Text.isScriptName_iff name).symm

/-- Names of scripts, each with what its script imports. -/
structure ImportGraph where
  entries : List (Text × List Text)
  names : ∀ entry ∈ entries, entry.1.IsScriptName
  closed : ∀ entry ∈ entries, entry.2 ⊆ entries.map Prod.fst

namespace ImportGraph

/-- The imports of a script; one that is not listed has none. -/
def importsOf (g : ImportGraph) (name : Text) : List Text :=
  (g.entries.lookup name).getD []

/-- The source of a script, with one statement on a line. -/
def source (g : ImportGraph) (name : Text) : Text :=
  ['\n'].intercalate ((Library.script g.importsOf name).map Phrase.write)

/-- All scripts as they are written. -/
def sources (g : ImportGraph) : List (Text × Text) :=
  (g.entries.map Prod.fst).map fun name => (name, g.source name)

variable {g : ImportGraph} {name : Text}

/-- What is listed can be the name of a script. -/
lemma isName (listed : name ∈ g.entries.map Prod.fst) : name.IsScriptName := by
  obtain ⟨entry, mem, rfl⟩ := List.mem_map.1 listed
  exact g.names entry mem

/-- Only scripts that are listed are imported. -/
lemma importsOf_subset (name : Text) : g.importsOf name ⊆ g.entries.map Prod.fst := by
  rw [importsOf]
  cases found : g.entries.lookup name with
  | none => exact List.nil_subset _
  | some others =>
    obtain ⟨before, after, e, -⟩ := List.lookup_eq_some_iff.1 found
    have mem : (name, others) ∈ g.entries := by
      rw [e]
      exact List.mem_append_right _ List.mem_cons_self
    exact g.closed _ mem

/-- The source of a script is read as its phrases. -/
lemma ofSource_source (own : name.IsScriptName) :
    Nodes.ofSource (g.source name) = (Library.script g.importsOf name).flatMap Phrase.nodes := by
  have quotable : ∀ p ∈ Library.script g.importsOf name, Phrase.Quotable p.text := by
    intro p mem
    obtain mem | mem := List.mem_append.1 mem
    · obtain ⟨other, imported, rfl⟩ := List.mem_map.1 mem
      exact (isName (importsOf_subset name imported)).quotable
    · cases List.mem_singleton.1 mem
      exact own.quotable
  refine Phrase.ofSource_lines ?_ quotable
  have unbroken : ∀ line ∈ (Library.script g.importsOf name).map Phrase.write, '\n' ∉ line := by
    intro line mem
    obtain ⟨p, stated, rfl⟩ := List.mem_map.1 mem
    exact Phrase.break_write (quotable p stated)
  have lines : (Library.script g.importsOf name).map Phrase.write ≠ [] := by simp [Library.script]
  rw [Phrase.linesOf, source, Text.split_intercalate unbroken lines]
  refine List.filter_eq_self.2 fun line mem => ?_
  obtain ⟨p, -, rfl⟩ := List.mem_map.1 mem
  rfl

/-- A list of scripts that has all imports is a library, if it is not too long. -/
lemma library {host : Host} {root : Text} (loader : host.loader = .ofList g.sources)
    (listed : root ∈ g.entries.map Prod.fst) (few : g.entries.length ≤ host.depthLimit + 1) :
    Library host g.importsOf root := by
  have reached : ∀ ⦃name⦄, Reaches g.importsOf root name → name ∈ g.entries.map Prod.fst := by
    intro name reached
    cases reached with
    | refl => exact listed
    | tail _ imported => exact importsOf_subset _ imported
  refine ⟨fun name h => (isName (reached h)).trimmed, fun name h => (isName (reached h)).ne,
    fun name h => ⟨g.source name, ?_, ofSource_source (isName (reached h))⟩, ?_⟩
  · have found : g.sources.lookup name = some (g.source name) :=
      List.lookup_graph g.source (reached h)
    rw [loader, Loader.ofList, found]
  · have subset : {name | Reaches g.importsOf root name} ⊆
        ((g.entries.map Prod.fst).toFinset : Set Text) := by
      intro name h
      exact List.mem_toFinset.2 (reached h)
    have card : (g.entries.map Prod.fst).toFinset.card ≤ host.depthLimit + 1 :=
      (List.toFinset_card_le _).trans ((List.length_map _).trans_le few)
    refine (Set.encard_le_encard subset).trans ?_
    rw [Set.encard_coe_eq_coe_finsetCard]
    exact_mod_cast card

end ImportGraph

/-- Imports load what can be reached, once. A host has a library of scripts that import others and
then print their name; imports may be repeated and go in circles. Then the run of a script succeeds,
the scripts that it loads are exactly those that can be reached from it, none of them twice, and
each has printed its name once. If imports do not go in circles, every name was printed after those
that its script imports. -/
theorem library_loaded {host : Host} {imports : Text → List Text} {root : Text}
    (library : Library host imports root) :
    let run := ({} : Machine).runFile host root
    let loaded := run.2.store.scripts.map Script.name
    (∃ id, run.1 = .ok id) ∧ loaded.Nodup ∧ (∀ name, name ∈ loaded ↔ Reaches imports root name) ∧
      run.2.output.Perm loaded ∧
      ((∀ name, Reaches imports root name → ¬ OnCycle imports name) →
        ∀ before name after, run.2.output = before ++ name :: after → imports name ⊆ before) := by
  intro run loaded
  have empty : Library.Holds imports root {} := ⟨rfl, rfl, .nil, nofun, nofun⟩
  obtain ⟨source, m, found, gives, holds, -, tours⟩ :=
    library.loads (host.depthLimit + 1) empty .refl nofun (Nat.le_refl 0) (by omega)
  obtain ⟨id, ran⟩ := Reachable.start.runSource_of_gives gives
  have result : run = (.ok id, m) := by simp only [run, Machine.runFile, found, ran]
  have entered : loaded = m.tour.entered :=
    congrArg (fun r => r.2.store.scripts.map Script.name) result
  have output : run.2.output = m.tour.left := congrArg (fun r => r.2.output) result
  rw [entered, output]
  refine ⟨⟨id, congrArg Prod.fst result⟩, holds.nodup, fun name => ⟨holds.reached name, ?_⟩, ?_, ?_⟩
  · -- what is loaded is closed under imports, so it holds all that can be reached
    intro reached
    induction reached with
    | refl => exact tours.closed.1 List.mem_cons_self
    | tail _ imported ih =>
      obtain none | closed := tours.closed.2 _ ih
      · nomatch none
      · exact closed imported
  · obtain ⟨new, all, left⟩ := tours.grows
    exact all ▸ left
  · intro acyclic before name after e
    refine tours.sorted acyclic ?_ nofun ?_ e
    · exact List.forall_mem_singleton.2 .refl
    · intro before name after e
      cases before <;> cases e

/-- In one list of scripts two import each other and a third one, which imports itself. In the other
one, two scripts import the same one, and one of the two is imported twice. -/
theorem library_loaded_circle_and_diamond :
    let a := "a".toList
    let b := "b".toList
    let c := "c".toList
    let d := "d".toList
    let circle : ImportGraph := ⟨[(a, [b, c]), (b, [c, a]), (c, [c])], by decide, by decide⟩
    let diamond : ImportGraph :=
      ⟨[(a, [b, c, b]), (b, [d]), (c, [d]), (d, [])], by decide, by decide⟩
    let host (g : ImportGraph) : Host := { loader := .ofList g.sources }
    (({} : Machine).runFile (host circle) a).2.output.Perm
        ((({} : Machine).runFile (host circle) a).2.store.scripts.map Script.name) ∧
      ∀ before name after,
        (({} : Machine).runFile (host diamond) a).2.output = before ++ name :: after →
          diamond.importsOf name ⊆ before := by
  intro a b c d circle diamond host
  have round : Library (host circle) circle.importsOf a :=
    ImportGraph.library rfl (by decide) (by decide)
  have pointed : Library (host diamond) diamond.importsOf a :=
    ImportGraph.library rfl (by decide) (by decide)
  -- imports go forward in the list
  have forward : ∀ x y, y ∈ diamond.importsOf x →
      [a, b, c, d].idxOf x < [a, b, c, d].idxOf y := by
    intro x y imported
    have listed : x ∈ [a, b, c, d] := by
      by_contra unlisted
      have none : diamond.entries.lookup x = none :=
        List.lookup_eq_none_iff.2 (by simpa [diamond] using unlisted)
      simp [ImportGraph.importsOf, none] at imported
    revert y
    revert x
    decide
  have acyclic : ∀ name, ¬ OnCycle diamond.importsOf name := by
    intro name cycle
    have lt : ∀ y, Relation.TransGen (fun a b => b ∈ diamond.importsOf a) name y →
        [a, b, c, d].idxOf name < [a, b, c, d].idxOf y := by
      intro y path
      induction path with
      | single imported => exact forward _ _ imported
      | tail _ imported ih => exact ih.trans (forward _ _ imported)
    exact Nat.lt_irrefl _ (lt name cycle)
  obtain ⟨-, -, -, once, -⟩ := library_loaded round
  obtain ⟨-, -, -, -, sorted⟩ := library_loaded pointed
  exact ⟨once, sorted fun name _ => acyclic name⟩

end Sigil
