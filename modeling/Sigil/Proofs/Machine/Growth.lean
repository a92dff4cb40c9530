import Mathlib.Tactic.Common
import Mathlib.Data.List.Infix
import Sigil.Proofs.Machine.Integrity

/-!
# What running never takes away

The journal of a machine, its records and its scripts are lists, and running only adds to them.
Nothing moves: an item keeps its place and becomes at most an item of the same kind (`Evolves`). A
variable may get another text, and a function may give way to one of its name
(`Symbol.Becomes`); a script keeps its outline, and its exports once it has any (`Script.Becomes`).

`Leads.journal_adds` and `Leads.grows` say this of everything that running can do, by induction on
`Leads`. A table that is not in order could lose a record when another one takes its address, so
the second one needs `Integrity`.

`Step` is what a host can do with a machine, and `Machine.runs` what comes of several steps in a
row.
-/

namespace Sigil

/-! ### Lists whose items stay in place -/

/-- Every item of the first list has become an item at the same place of the second. -/
def Evolves {α : Type} (becomes : α → α → Prop) (old new : List α) : Prop :=
  ∀ ⦃i : Nat⦄ ⦃a : α⦄, old[i]? = some a → ∃ b, new[i]? = some b ∧ becomes a b

namespace Evolves

variable {α β : Type} {becomes : α → α → Prop} {a b c : List α}

/-- A list stays in place if every item can become itself. -/
lemma refl (h : ∀ x, becomes x x) (l : List α) : Evolves becomes l l :=
  fun _ x hx => ⟨x, hx, h x⟩

/-- A list stays in place over two changes if what an item becomes can be put together. -/
lemma trans (h : ∀ {x y z}, becomes x y → becomes y z → becomes x z) (hab : Evolves becomes a b)
    (hbc : Evolves becomes b c) : Evolves becomes a c := by
  intro i x hx
  obtain ⟨y, hy, xy⟩ := hab hx
  obtain ⟨z, hz, yz⟩ := hbc hy
  exact ⟨z, hz, h xy yz⟩

/-- New items come last. -/
lemma append (h : ∀ x, becomes x x) (l added : List α) : Evolves becomes l (l ++ added) := by
  intro i x hx
  have lt := (List.getElem?_eq_some_iff.1 hx).1
  exact ⟨x, by rw [List.getElem?_append_left lt, hx], h x⟩

/-- Items stay in place when each is changed on its own. -/
lemma map {l : List α} {f : α → α} (h : ∀ x ∈ l, becomes x (f x)) :
    Evolves becomes l (l.map f) := by
  intro i x hx
  exact ⟨f x, by rw [List.getElem?_map, hx]; rfl, h x (List.mem_of_getElem? hx)⟩

/-- What no item loses is a list that only gets longer. -/
lemma map_initial (h : Evolves becomes a b) {f : α → β} (kept : ∀ {x y}, becomes x y → f y = f x) :
    a.map f <+: b.map f := by
  rw [List.prefix_iff_getElem?]
  intro i lt
  rw [List.length_map] at lt
  obtain ⟨y, hy, xy⟩ := h (List.getElem?_eq_getElem lt)
  rw [List.getElem?_map, hy, List.getElem_map, Option.map_some, kept xy]

end Evolves

/-! ### Records and scripts -/

/-- What can become of a record. -/
inductive Symbol.Becomes : Symbol → Symbol → Prop where
  | changed (address : Address) (v : Variable) (text : Text) :
    Becomes ⟨address, .variable v⟩ ⟨address, .variable { v with text }⟩
  | redefined (address : Address) {f g : Function} :
    g.name = f.name →
    Becomes ⟨address, .function f⟩ ⟨address, .function g⟩

namespace Symbol.Becomes

/-- A record that nothing happens to has become itself. -/
lemma refl (s : Symbol) : s.Becomes s := by
  obtain ⟨address, v | f⟩ := s
  · exact .changed address v v.text
  · exact .redefined address rfl

/-- What has become of a record can become something else. -/
lemma trans {a b c : Symbol} (h : a.Becomes b) (h' : b.Becomes c) : a.Becomes c := by
  cases h with
  | changed address v text =>
    cases h' with
    | changed _ _ text' => exact .changed address v text'
  | redefined address name =>
    cases h' with
    | redefined _ name' => exact .redefined address (name'.trans name)

/-- A record keeps its address. -/
lemma address_eq {a b : Symbol} (h : a.Becomes b) : b.address = a.address := by
  cases h <;> rfl

end Symbol.Becomes

/-- What can become of a script. -/
structure Script.Becomes (s s' : Script) : Prop where
  outline : s'.outline = s.outline
  exports : s.exports.isSome = true → s'.exports.isSome = true

/-- A script that nothing happens to has become itself. -/
lemma Script.Becomes.refl (s : Script) : s.Becomes s :=
  ⟨rfl, fun exported => exported⟩

/-- What has become of a script can become something else. -/
lemma Script.Becomes.trans {a b c : Script} (h : a.Becomes b) (h' : b.Becomes c) : a.Becomes c :=
  ⟨h'.outline.trans h.outline, fun e => h'.exports (h.exports e)⟩

namespace Table

variable {t : Table}

/-- A change of a text changes one variable. -/
lemma evolves_setText (t : Table) (address : Address) (text : Text) :
    Evolves Symbol.Becomes t.records (t.setText address text).records := by
  rw [records_setText]
  refine .map fun s _ => ?_
  obtain ⟨a, v | f⟩ := s
  · by_cases h : a = address
    · simpa only [withText, if_pos h] using Symbol.Becomes.changed a v text
    · simpa only [withText, if_neg h] using Symbol.Becomes.refl _
  · exact .refl _

/-- A new variable comes last. -/
lemma Ordered.evolves_declare (ord : t.Ordered) (v : Variable) :
    Evolves Symbol.Becomes t.records (t.declare v).records :=
  ord.records_declare v ▸ .append Symbol.Becomes.refl _ _

/-- A definition takes the place of a function of its name, or comes last. -/
lemma Ordered.evolves_define (ord : t.Ordered) (f : Function) :
    Evolves Symbol.Becomes t.records (t.define f).records := by
  rcases define_cases t f with e | ⟨e, _⟩
  · rw [e]
    refine .map fun s hs => ?_
    obtain ⟨i, hi⟩ := List.getElem?_of_mem hs
    have home := ord.home hi
    split
    · -- only a function has a name as its address
      rename_i address
      obtain ⟨a, v | g⟩ := s
      · simp only [homeOf] at home address
        cases home.symm.trans address
      · simp only [homeOf] at home address
        subst address
        exact .redefined _ (Address.named.inj home)
    · exact .refl s
  · exact e ▸ .append Symbol.Becomes.refl _ _

end Table

/-! ### Machines -/

/-- The records and scripts of a machine are still there in another one. -/
structure Machine.Grows (m m' : Machine) : Prop where
  records : Evolves Symbol.Becomes m.symbols.records m'.symbols.records
  scripts : Evolves Script.Becomes m.store.scripts m'.store.scripts

namespace Machine.Grows

variable {a b c m : Machine}

/-- A machine that nothing happens to has lost nothing. -/
lemma refl (m : Machine) : m.Grows m :=
  ⟨.refl Symbol.Becomes.refl _, .refl Script.Becomes.refl _⟩

/-- What loses nothing twice loses nothing. -/
lemma trans (h : a.Grows b) (h' : b.Grows c) : a.Grows c :=
  ⟨h.records.trans .trans h'.records, h.scripts.trans .trans h'.scripts⟩

/-- The records and scripts are the same. -/
lemma of_eq (symbols : b.symbols = a.symbols) (scripts : b.store.scripts = a.store.scripts) :
    a.Grows b :=
  ⟨symbols ▸ .refl Symbol.Becomes.refl _, scripts ▸ .refl Script.Becomes.refl _⟩

/-- All scripts may change in their own way. -/
lemma map {f : Script → Script} (h : ∀ s : Script, s.Becomes (f s)) (m : Machine) :
    m.Grows { m with store := m.store.map f } :=
  ⟨.refl Symbol.Becomes.refl _, .map fun s _ => h s⟩

/-- Filling in loses nothing. -/
lemma substituteAll (m : Machine) : m.Grows m.substituteAll :=
  map (fun s => ⟨s.outline_substitute m.symbols, id⟩) m

/-- Propagating a change loses nothing. -/
lemma propagate (m : Machine) (address : Address) (old new : Text) (p : Propagation) :
    m.Grows (m.propagate address old new p) := by
  cases p with
  | follow => exact map (fun s => ⟨s.outline_followChange _ _ _, id⟩) m
  | overwrite => exact map (fun s => ⟨s.outline_overwriteShown _ _, id⟩) m

/-- An update loses nothing. -/
lemma update (m : Machine) (address : Address) (text : Text) (p : Propagation) :
    m.Grows (m.update address text p) := by
  rcases m.update_cases address text p with ⟨_, e⟩ | ⟨old, _, e⟩
  · exact e.symm ▸ refl m
  · rw [e]
    have changed : m.Grows { m with symbols := m.symbols.setText address text } :=
      ⟨m.symbols.evolves_setText address text, .refl Script.Becomes.refl _⟩
    exact changed.trans (propagate _ address old text p)

/-- A binding loses nothing. -/
lemma bind (ord : m.symbols.Ordered) (name text : Text) (scope : Scope) :
    m.Grows (m.bind name text scope) := by
  rcases m.bind_cases name text scope with ⟨address, _, _, e⟩ | ⟨_, e⟩
  · rw [e]
    exact (update m address text .follow).trans (substituteAll _)
  · rw [e]
    have declared : m.Grows { m with symbols := m.symbols.declare { name, text, scope } } :=
      ⟨ord.evolves_declare _, .refl Script.Becomes.refl _⟩
    exact declared.trans (substituteAll _)

/-- An assignment loses nothing. -/
lemma assign (ord : m.symbols.Ordered) (site : Site) (name text : Text) (p : Propagation) :
    m.Grows (m.assign site name text p) := by
  rcases m.assign_cases site name text p with ⟨address, _, _, e⟩ | e
  · rw [e]
    exact (update m address text p).trans (substituteAll _)
  · rw [e]
    exact bind ord name text _

/-- The script that exports has exports afterwards. -/
lemma exportAll (m : Machine) (site : Site) : m.Grows (m.exportAll site) := by
  refine ⟨.refl Symbol.Becomes.refl _, fun i s hs => ?_⟩
  simp only [Machine.exportAll, Store.modify, List.getElem?_modify, hs]
  split
  · exact ⟨_, rfl, rfl, fun _ => rfl⟩
  · exact ⟨s, rfl, .refl s⟩

/-- A script that is loaded comes last. -/
lemma load {name : Text} {nodes : List Node} {id : ScriptId} {store : Store}
    (new : m.store.insert? name nodes = some (id, store)) : m.Grows { m with store } := by
  obtain ⟨_, _, rfl⟩ := Store.insert_inv new
  exact ⟨.refl Symbol.Becomes.refl _, .append Script.Becomes.refl _ _⟩

end Machine.Grows

/-- The journal was added to, and only recoverable errors were reported. -/
def Adds (journal journal' : List Event) : Prop :=
  ∃ added, journal' = added ++ journal ∧ ∀ d, .reported d ∈ added → d.error.isRecoverable = true

namespace Adds

variable {a b c : List Event}

/-- To add nothing is to add. -/
lemma refl (journal : List Event) : Adds journal journal :=
  ⟨[], rfl, fun _ mem => absurd mem List.not_mem_nil⟩

/-- What is added in two parts is added. -/
lemma trans (h : Adds a b) (h' : Adds b c) : Adds a c := by
  obtain ⟨added, rfl, mild⟩ := h
  obtain ⟨added', rfl, mild'⟩ := h'
  refine ⟨added' ++ added, (List.append_assoc _ _ _).symm, fun d mem => ?_⟩
  rcases List.mem_append.1 mem with mem | mem
  · exact mild' d mem
  · exact mild d mem

/-- A recoverable error can be reported. -/
lemma reported {d : Diagnostic} (mild : d.error.isRecoverable = true) (journal : List Event) :
    Adds journal (.reported d :: journal) := by
  refine ⟨[.reported d], rfl, fun d' mem => ?_⟩
  cases List.mem_singleton.1 mem
  exact mild

/-- Any event that is not a report can be added. -/
lemma other {event : Event} (h : event.diagnostic? = none) (journal : List Event) :
    Adds journal (event :: journal) := by
  refine ⟨[event], rfl, fun d mem => ?_⟩
  cases List.mem_singleton.1 mem
  cases h

end Adds

namespace Leads

variable {host : Host} {m m' : Machine}

/-- What is noted down in the journal. -/
lemma journal_adds (h : Leads host m m') : Adds m.journal m'.journal := by
  -- changes of variables leave the frame as it is, and the journal is in it
  have framed : ∀ {a b : Machine}, b.frame = a.frame → Adds a.journal b.journal := by
    intro a b e
    have journal : b.journal = a.journal := congrArg (·.2.2.2) e
    exact journal ▸ .refl _
  induction h with
  | refl => exact .refl _
  | trans _ _ ih ih' => exact ih.trans ih'
  | began => exact .other rfl _
  | printed => exact .other rfl _
  | reported site he => exact .reported he _
  | called source reply =>
    unfold Machine.logNative
    dsimp only
    split
    · exact .trans (.other rfl _) (.other rfl _)
    · exact .other rfl _
  | @bound m scope name text _ => exact framed (m.frame_bind name text scope)
  | @assigned m site name text p => exact framed (m.frame_assign site name text p)
  | @edited m address text => exact framed (m.frame_update address text .follow)
  | defined => exact .refl _
  | exported => exact .refl _
  | loaded new =>
    obtain ⟨_, _, rfl⟩ := Store.insert_inv new
    exact .other rfl _
  | within _ _ ih => exact ih
  | nested _ _ ih => exact ih

/-- Whatever is noted in the journal stays there. -/
lemma journal_grows (h : Leads host m m') : m.journal <:+ m'.journal := by
  obtain ⟨added, e, _⟩ := h.journal_adds
  exact ⟨added, e.symm⟩

/-- No record and no script is lost or moved. -/
lemma grows (h : Leads host m m') (int : Integrity m) : m.Grows m' := by
  induction h with
  | refl => exact .refl _
  | trans first _ ih ih' => exact (ih int).trans (ih' (first.integrity int))
  | began => exact .of_eq rfl rfl
  | printed => exact .of_eq rfl rfl
  | reported => exact .of_eq rfl rfl
  | @called m source reply =>
    obtain ⟨_, _, e⟩ := m.logNative_cases source reply
    exact e ▸ .of_eq rfl rfl
  | bound name text _ => exact .bind int.ordered name text _
  | assigned site name text p => exact .assign int.ordered site name text p
  | edited address text =>
    exact (Machine.Grows.update _ address text .follow).trans (.substituteAll _)
  | @defined m site f _ =>
    exact ⟨int.ordered.evolves_define f, .refl Script.Becomes.refl _⟩
  | exported site => exact .exportAll _ site
  | @loaded m name source id store new =>
    have logged : Machine.Grows { m with store } ({ m with store }.log (.loaded name)) :=
      .of_eq rfl rfl
    exact ((Machine.Grows.load new).trans logged).trans (.substituteAll _)
  | within _ _ ih =>
    have inside := ih (int.congr rfl rfl)
    exact ⟨inside.records, inside.scripts⟩
  | nested _ _ ih =>
    have inside := ih (int.congr rfl rfl)
    exact ⟨inside.records, inside.scripts⟩

end Leads

/-- What is read off the journal only gets longer. -/
lemma filterMap_reverse_initial {α : Type} {journal journal' : List Event}
    (h : journal <:+ journal') (f : Event → Option α) :
    journal.reverse.filterMap f <+: journal'.reverse.filterMap f := by
  have reversed : journal.reverse <+: journal'.reverse := List.reverse_prefix.2 h
  exact reversed.filterMap f

/-! ### Steps of a host -/

/-- What a host can do with a machine: run a source or a file, and ask for an interrupt or take the
request back. Each run may have a host of its own. -/
inductive Step where
  | source (host : Host) (name text : Text)
  | file (host : Host) (name : Text)
  | interrupt (interrupted : Bool)

/-- The result of a step, provided that it is a run, and the machine that it leaves. -/
def Step.run (m : Machine) : Step → Option (Except Error ScriptId) × Machine
  | .source host name text => (some (m.runSource host name text).1, (m.runSource host name text).2)
  | .file host name => (some (m.runFile host name).1, (m.runFile host name).2)
  | .interrupt interrupted => (none, m.setInterrupted interrupted)

/-- The results of steps in a row, with the machine after each of them. -/
def Machine.runs (m : Machine) : List Step → List (Option (Except Error ScriptId) × Machine)
  | [] => []
  | step :: steps => step.run m :: (step.run m).2.runs steps

section
variable {m : Machine}

/-- A step of the host leads from a reachable machine to one. -/
lemma Reachable.step (h : Reachable m) (step : Step) : Reachable (step.run m).2 := by
  cases step with
  | source host name text => exact .source host name text h
  | file host name => exact .file host name h
  | interrupt interrupted => exact .interrupt interrupted h

/-- A step of the host adds to the journal and loses nothing. -/
lemma Reachable.step_grows (h : Reachable m) (step : Step) :
    m.journal <:+ (step.run m).2.journal ∧ m.Grows (step.run m).2 := by
  have led : ∀ {host m'}, Leads host m m' → m.journal <:+ m'.journal ∧ m.Grows m' :=
    fun leads => ⟨leads.journal_grows, leads.grows h.visited.integrity⟩
  cases step with
  | source host name text => exact led (source_leads h.depth_eq name text)
  | file host name => exact led (file_leads h.depth_eq name)
  | interrupt interrupted => exact ⟨List.suffix_refl _, .of_eq rfl rfl⟩

/-- A row of steps adds to the journal and loses nothing, up to each of them. -/
lemma Reachable.runs_grow (h : Reachable m) {steps : List Step} {r} (mem : r ∈ m.runs steps) :
    m.journal <:+ r.2.journal ∧ m.Grows r.2 := by
  induction steps generalizing m with
  | nil => cases mem
  | cons step steps ih =>
    have first := h.step_grows step
    rcases List.mem_cons.1 mem with rfl | mem
    · exact first
    · have later := ih (h.step step) mem
      exact ⟨first.1.trans later.1, first.2.trans later.2⟩

end

/-- Running takes nothing away, however many steps a host does and however they end. The lines that
were printed, the statements that were reported, the addresses of the records and the scripts by
number and name are the first ones of those that are there afterwards. A variable keeps its address,
its name and its scope, at its place in the table; a function gives way to a function of its name
only, at the same place; a script keeps the number, kinds and parents of its nodes; and one that has
exports does not lose them. -/
theorem Reachable.nothing_lost {m : Machine} (h : Reachable m) (steps : List Step) :
    ∀ r ∈ m.runs steps,
      m.output <+: r.2.output ∧ m.diagnostics <+: r.2.diagnostics ∧
      m.symbols.addresses <+: r.2.symbols.addresses ∧
      (m.store.scripts.map fun s => (s.id, s.name)) <+:
        (r.2.store.scripts.map fun s => (s.id, s.name)) ∧
      (∀ (i : Nat) a v, m.symbols.records[i]? = some ⟨a, .variable v⟩ →
        ∃ text, r.2.symbols.records[i]? = some ⟨a, .variable { v with text }⟩) ∧
      (∀ (i : Nat) a f, m.symbols.records[i]? = some ⟨a, .function f⟩ →
        ∃ g, r.2.symbols.records[i]? = some ⟨a, .function g⟩ ∧ g.name = f.name) ∧
      ∀ id s, m.store.get? id = some s → ∃ s', r.2.store.get? id = some s' ∧
        s'.nodes.map Node.toShape = s.nodes.map Node.toShape ∧
        (s.exports.isSome = true → s'.exports.isSome = true) := by
  intro r mem
  obtain ⟨journal, grown⟩ := h.runs_grow mem
  refine ⟨filterMap_reverse_initial journal _, filterMap_reverse_initial journal _,
    grown.records.map_initial Symbol.Becomes.address_eq, ?_, ?_, ?_, ?_⟩
  · refine grown.scripts.map_initial fun {s s'} becomes => ?_
    have same : s'.outline = s.outline := becomes.outline
    exact congrArg (fun o : Outline => (o.id, o.name)) same
  · intro i a v hv
    obtain ⟨s, hs, becomes⟩ := grown.records hv
    cases becomes with
    | changed _ _ text => exact ⟨text, hs⟩
  · intro i a f hf
    obtain ⟨s, hs, becomes⟩ := grown.records hf
    cases becomes with
    | redefined _ name => exact ⟨_, hs, name⟩
  · intro id s hs
    obtain ⟨s', hs', becomes⟩ := grown.scripts hs
    exact ⟨s', hs', congrArg Outline.shapes becomes.outline, becomes.exports⟩

/-- A second source declares a variable and a function of the first one anew and then fails at an
import: both have kept their places, and the line that was printed is still the first one. -/
theorem nothing_lost_declared_anew :
    let host : Host := { loader := .ofList [] }
    let first := "@func \x7bf\x7d () \x7b @c \x7d @declare \"x = 1\" @print \"[#x]\" @exportall"
    let second := "@func \x7bf\x7d (a) \x7b @c \x7d @declare \"x = 2\" @usingfile \"gone\""
    let m := (({} : Machine).runSource host ['a'] first.toList).2
    let run := m.runSource host ['b'] second.toList
    run.1 = .error (.load "gone".toList .notFound) ∧ [['1']] <+: run.2.output ∧
      (∃ g, run.2.symbols.records[0]? = some ⟨.named ['f'], .function g⟩ ∧ g.name = ['f']) ∧
      (∃ text, run.2.symbols.records[1]? =
        some ⟨.number 812, .variable ⟨['x'], text, .everywhere⟩⟩) ∧
      ∃ s, run.2.store.get? 0 = some s ∧ s.exports.isSome = true := by
  intro host first second m run
  have reachable : Reachable m := .source host _ _ .start
  have failed : run.1 = .error (.load "gone".toList .notFound) := by decide +kernel
  obtain ⟨printed, function, declared, exported⟩ : m.output = [['1']] ∧
      m.symbols.records[0]? = some ⟨.named ['f'], .function ⟨['f'], [], 3, 0, []⟩⟩ ∧
      m.symbols.records[1]? = some ⟨.number 812, .variable ⟨['x'], ['1'], .everywhere⟩⟩ ∧
      (m.store.get? 0).any (fun s => s.exports.isSome) = true := by decide +kernel
  obtain ⟨s, hs, exports⟩ := (Option.any_eq_true _ _).1 exported
  -- nothing else is to be computed
  clear_value m
  obtain ⟨output, -, -, -, vars, functions, scripts⟩ :=
    reachable.nothing_lost [.source host ['b'] second.toList] _ List.mem_cons_self
  obtain ⟨s', hs', -, kept⟩ := scripts 0 s hs
  exact ⟨failed, printed ▸ output, functions 0 _ _ function, vars 1 _ _ declared,
    s', hs', kept exports⟩

end Sigil
