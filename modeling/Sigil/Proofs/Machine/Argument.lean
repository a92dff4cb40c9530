import Mathlib.Tactic.Common
import Mathlib.Logic.Function.Basic
import Sigil.Proofs.Machine.Template

/-!
# Arguments of a template

What the arguments of a call do to the string of a template. They are bound one after the other, and
each binding goes through the string. `Stage` is what is known of a machine in between: which
arguments have been given, what the pieces of the string are, and which variable the string shows.

The first call finds the placeholders in their places and fills them in (`Stage.bind_new`), so that
the string shows the last one filled in. Later calls find characters only. The string then follows
the change of the variable that it shows, and of no other (`Stage.bind_again`).
-/

namespace Sigil

/-! ### One binding -/

section
variable {m : Machine} {name text : Text} {scope : Scope}

/-- What a binding makes of a node before placeholders are filled in: if the variable was there and
the node shows it, the node follows the change. -/
def Node.rebound (old : Option (Address × Variable)) (text : Text) (node : Node) : Node :=
  match old with
  | some (address, v) =>
    if node.bound = some address then node.follow (Text.trim v.text) (Text.trim text) else node
  | none => node

/-- A node that follows a binding stands where it stood. -/
@[simp] lemma Node.toShape_rebound (old : Option (Address × Variable)) (text : Text) (node : Node) :
    (node.rebound old text).toShape = node.toShape := by
  unfold rebound
  split
  · split
    · exact node.toShape_follow _ _
    · rfl
  · rfl

/-- A node that does not show the variable does not follow. -/
lemma Node.rebound_eq_self {old : Option (Address × Variable)} {node : Node}
    (h : ∀ address v, old = some (address, v) → node.bound ≠ some address) (text : Text) :
    node.rebound old text = node := by
  unfold rebound
  split
  · exact if_neg (h _ _ rfl)
  · rfl

/-- A binding lets the nodes follow, and fills in placeholders. -/
lemma Integrity.nodes_bind (int : Integrity m) (name text : Text) (scope : Scope) (id : ScriptId) :
    (m.bind name text scope).nodes id = (m.nodes id).map fun node =>
      (node.rebound (m.symbols.variableIn name scope) text).substitute
        (m.bind name text scope).symbols id := by
  rcases m.bind_cases name text scope with ⟨address, v, found, e⟩ | ⟨new, e⟩
  · have num : (m.update address text .follow).Numbered :=
      int.numbered.congr (m.outlines_update address text .follow)
    rw [e, num.nodes_substituteAll, found, int.update_found found, Machine.nodes_propagate_follow,
      List.map_map]
    rfl
  · have num : { m with symbols := m.symbols.declare { name, text, scope } }.Numbered :=
      int.numbered
    rw [e, num.nodes_substituteAll, new]
    rfl

/-- A binding gives the variable of the scope its new text and leaves it where it is. -/
lemma Integrity.variableIn_bind_of_some (int : Integrity m) {address v}
    (found : m.symbols.variableIn name scope = some (address, v)) (text : Text) :
    (m.bind name text scope).symbols.variableIn name scope = some (address, { v with text }) := by
  rcases m.bind_cases name text scope with ⟨address', v', found', e⟩ | ⟨new, _⟩
  · cases found.symm.trans found'
    rw [e]
    show (m.update address text .follow).symbols.variableIn name scope = _
    rw [int.update_found found, Machine.symbols_propagate]
    exact Table.variableIn_setText text found
  · rw [new] at found
    cases found

/-- A binding touches no variable of another name or scope. -/
lemma Integrity.variableIn_bind_of_ne (int : Integrity m) {name' : Text} {scope' : Scope}
    (ne : ¬ (name' = name ∧ scope' = scope)) :
    (m.bind name text scope).symbols.variableIn name' scope' =
      m.symbols.variableIn name' scope' := by
  refine Table.variableIn_congr_of_filter (fun s is => ?_) (filter_bind int name text scope)
  obtain ⟨_, v, rfl, rfl, rfl⟩ := Symbol.isOf_inv is
  simpa [Symbol.isOf, Symbol.asVariable] using not_and_or.1 ne

/-- No binding changes the address of a variable. -/
lemma Integrity.address_bind (int : Integrity m) {name' : Text} {scope' : Scope} {address v}
    (found : m.symbols.variableIn name' scope' = some (address, v)) (name text : Text)
    (scope : Scope) :
    ((m.bind name text scope).symbols.variableIn name' scope').map Prod.fst = some address := by
  by_cases same : name' = name ∧ scope' = scope
  · obtain ⟨rfl, rfl⟩ := same
    rw [int.variableIn_bind_of_some found]
    rfl
  · rw [int.variableIn_bind_of_ne same, found]
    rfl

/-- Variables of different names or scopes have different addresses. -/
lemma Integrity.address_ne (int : Integrity m) {name' : Text} {scope' : Scope} {a a' v v'}
    (h : m.symbols.variableIn name scope = some (a, v))
    (h' : m.symbols.variableIn name' scope' = some (a', v'))
    (ne : ¬ (name' = name ∧ scope' = scope)) : a' ≠ a := by
  rintro rfl
  obtain ⟨mem, hn, hs⟩ := Table.variableIn_inv h
  obtain ⟨mem', hn', hs'⟩ := Table.variableIn_inv h'
  have same := int.ordered.declarations_unique (Table.mem_declarations mem)
    (Table.mem_declarations mem')
  obtain ⟨names, scopes⟩ := Prod.mk.inj same
  exact ne ⟨by rw [← hn, ← hn', names], by rw [← hs, ← hs', scopes]⟩

/-- At a statement outside all brackets, an assignment is a binding that is seen everywhere. -/
lemma Machine.assign_eq_bind {site : Site} (outside : m.scopeOf site = .everywhere) :
    m.assign site name text .follow = m.bind name text .everywhere := by
  have same : m.symbols.resolve name .everywhere = m.symbols.variableIn name .everywhere := by
    rw [Table.resolve]
    cases m.symbols.variableIn name .everywhere <;> rfl
  rw [assign, outside, same, bind]
  split <;> rfl

end

namespace Template

variable {f : Template}

/-! ### Names of arguments -/

/-- The name under which the argument for a parameter is bound. -/
def argName (f : Template) (param : Text) : Text :=
  f.name ++ ".args.".toList ++ param

/-- The names under which the arguments are bound. -/
def names (f : Template) : List Text :=
  f.params.map f.argName

/-- The pieces of the string before anything was filled in. -/
def pieces (f : Template) : List Piece :=
  Piece.ofText f.body

/-- The scope of the arguments. -/
def scope : Scope :=
  .bracket 0 bodyIndex

/-- The arguments of different parameters are bound under different names. -/
lemma names_nodup (f : Template) : f.names.Nodup :=
  f.nodup.map fun _ _ e => List.append_cancel_left e

/-- A placeholder in the string names an argument. -/
lemma mem_names_of_hole {arg : Text} (mem : .hole arg ∈ f.pieces) : arg ∈ f.names := by
  obtain ⟨p, listed, rfl⟩ := f.holes arg mem
  exact List.mem_map_of_mem listed

/-- The names of arguments have no blanks around them. -/
lemma trim_of_mem_names {arg : Text} (mem : arg ∈ f.names) : Text.trim arg = arg := by
  obtain ⟨p, listed, rfl⟩ := List.mem_map.1 mem
  have param := f.params_ok p listed
  have start := f.name_ok.trimmed ▸ Text.trim_ends f.name
  have finish := param.trimmed ▸ Text.trim_ends p
  refine Text.trim_eq_self (fun c first => start.1 c ?_) fun c last => finish.2 c ?_
  · rwa [argName, List.append_assoc, List.head?_append_of_ne_nil _ f.name_ok.ne] at first
  · rwa [argName, List.getLast?_append_of_ne_nil _ param.ne] at last

/-- The pieces of the string can be read back. -/
lemma legible_pieces (f : Template) : Piece.Legible f.pieces :=
  ⟨f.apart, fun _ mem => Piece.closed_scan (by simp) mem⟩

/-! ### The machine between bindings -/

/-- What is known of a machine between the bindings of arguments: the arguments given so far, the
name that the string shows, and the pieces of the string. -/
structure Stage (f : Template) (calls : List f.Call) (given : Text → Option Text)
    (shown : Option Text) (ps : List Piece) (m : Machine) : Prop where
  visited : Visited m
  running : m.interrupted = false
  known : m.symbols.function? f.name = some f.toFunction
  string : ∃ node, m.nodes 0 = f.layout node calls ∧ node.toShape = f.blank.toShape ∧
    node.value = ps.flatMap Piece.source ∧
    node.bound = shown.bind fun arg => (m.symbols.variableIn arg scope).map Prod.fst
  legible : Piece.Legible ps
  texts : ∀ arg ∈ f.names, (m.symbols.variableIn arg scope).map (fun (_, v) => v.text) = given arg
  clean : ∀ arg t, given arg = some t → t.Clean
  shows : ∀ arg ∈ shown, arg ∈ f.names ∧ (given arg).isSome = true

variable {calls : List f.Call} {given : Text → Option Text} {shown : Option Text} {ps : List Piece}
  {m m' : Machine} {arg t : Text}

/-- Nothing matters but the records and the nodes. -/
lemma Stage.congr (stage : Stage f calls given shown ps m) (visited : Visited m')
    (running : m'.interrupted = m.interrupted) (symbols : m'.symbols = m.symbols)
    (nodes : m'.nodes 0 = m.nodes 0) : Stage f calls given shown ps m' where
  visited := visited
  running := running.trans stage.running
  known := symbols ▸ stage.known
  string := symbols ▸ nodes ▸ stage.string
  legible := stage.legible
  texts := symbols ▸ stage.texts
  clean := stage.clean
  shows := stage.shows

/-- A node that is still stays as it is when arguments are bound. -/
lemma Still.substitute_rebound {node : Node} (still : Still node)
    (old : Option (Address × Variable)) (text : Text) (table : Table) (id : ScriptId) :
    (node.rebound old text).substitute table id = node := by
  have same : node.rebound old text = node :=
    Node.rebound_eq_self (fun _ _ _ => by simp [still.bound]) text
  rw [same]
  exact Node.substitute_chars (Piece.legible_chars still.opening) rfl

/-- An argument that is given is the text of a variable. -/
lemma Stage.variable_of_given (stage : Stage f calls given shown ps m) (mem : arg ∈ f.names)
    (e : given arg = some t) :
    ∃ address v, m.symbols.variableIn arg scope = some (address, v) ∧ v.text = t := by
  have text := stage.texts arg mem
  rw [e, Option.map_eq_some_iff] at text
  obtain ⟨⟨address, v⟩, found, rfl⟩ := text
  exact ⟨address, v, found, rfl⟩

/-- The variable that the string shows keeps its address when something is bound. -/
lemma Stage.address_shown (stage : Stage f calls given shown ps m) (name text : Text)
    (scope' : Scope) :
    (shown.bind fun arg => ((m.bind name text scope').symbols.variableIn arg scope).map Prod.fst) =
      shown.bind fun arg => (m.symbols.variableIn arg scope).map Prod.fst := by
  cases e : shown with
  | none => rfl
  | some s =>
    obtain ⟨mem, there⟩ := stage.shows s e
    obtain ⟨_, ht⟩ := Option.isSome_iff_exists.1 there
    obtain ⟨address, v, found, _⟩ := stage.variable_of_given mem ht
    rw [Option.bind_some, Option.bind_some,
      stage.visited.integrity.address_bind found, found]
    rfl

/-- When an argument is bound, it is given, and the others are given as before. -/
lemma Stage.texts_bind (stage : Stage f calls given shown ps m) (arg t : Text) :
    ∀ arg' ∈ f.names, ((m.bind arg t scope).symbols.variableIn arg' scope).map
      (fun (_, v) => v.text) = Function.update given arg (some t) arg' := by
  intro arg' mem
  have int := stage.visited.integrity
  by_cases e : arg' = arg
  · subst e
    rw [variableIn_bind int, Function.update_self]
  · rw [int.variableIn_bind_of_ne fun same => e same.1, Function.update_of_ne e]
    exact stage.texts arg' mem

/-- The arguments that are given are clean, and so is the one that is bound. -/
lemma Stage.clean_update (stage : Stage f calls given shown ps m) (clean : t.Clean) :
    ∀ arg' t', Function.update given arg (some t) arg' = some t' → t'.Clean := by
  intro arg' t' e
  by_cases same : arg' = arg
  · subst same
    rw [Function.update_self] at e
    cases e
    exact clean
  · rw [Function.update_of_ne same] at e
    exact stage.clean arg' t' e

/-- The string shows an argument that is given, also after a binding. -/
lemma Stage.shows_update (stage : Stage f calls given shown ps m) :
    ∀ arg' ∈ shown, arg' ∈ f.names ∧ (Function.update given arg (some t) arg').isSome = true := by
  intro arg' mem
  obtain ⟨listed, there⟩ := stage.shows arg' mem
  refine ⟨listed, ?_⟩
  by_cases same : arg' = arg
  · subst same
    rw [Function.update_self]
    rfl
  · rwa [Function.update_of_ne same]

/-- A binding leads to another stage, if it does the right thing to the string and the variables. -/
lemma Stage.bind (stage : Stage f calls given shown ps m) {given' : Text → Option Text}
    {shown' : Option Text} {ps' : List Piece} {name text : Text} {scope' : Scope}
    (declares : m.Declares scope')
    (string : ∀ node : Node, node.toShape = f.blank.toShape →
      node.value = ps.flatMap Piece.source →
      (node.bound = shown.bind fun arg => (m.symbols.variableIn arg scope).map Prod.fst) →
      let table := (m.bind name text scope').symbols
      let node' := (node.rebound (m.symbols.variableIn name scope') text).substitute table 0
      node'.value = ps'.flatMap Piece.source ∧
        node'.bound = shown'.bind fun arg => (table.variableIn arg scope).map Prod.fst)
    (legible : Piece.Legible ps')
    (texts : ∀ arg ∈ f.names, ((m.bind name text scope').symbols.variableIn arg scope).map
      (fun (_, v) => v.text) = given' arg)
    (clean : ∀ arg t, given' arg = some t → t.Clean)
    (shows : ∀ arg ∈ shown', arg ∈ f.names ∧ (given' arg).isSome = true) :
    Stage f calls given' shown' ps' (m.bind name text scope') where
  visited :=
    have bound : Leads { loader := .ofList [] } m _ := .bound name text declares
    stage.visited.leads bound
  running := (congrArg (·.2.2.1) (m.frame_bind name text scope')).trans stage.running
  known := (m.function_bind name text scope' f.name).trans stage.known
  string := by
    obtain ⟨node, nodes, shape, value, bound⟩ := stage.string
    refine ⟨_, ?_, ?_, string node shape value bound⟩
    · rw [stage.visited.integrity.nodes_bind, nodes]
      exact f.layout_map (fun node still => still.substitute_rebound _ _ _ _) node calls
    · rw [Node.toShape_substitute, Node.toShape_rebound, shape]
  legible := legible
  texts := texts
  clean := clean
  shows := shows

/-! ### The first call -/

/-- If only the placeholder of one name means a variable, this is the last one, if there is one. -/
lemma getLast?_filterMap {address? : Piece → Option Address} {address : Address}
    (e : ∀ p ∈ ps, address? p = if p = .hole arg then some address else none) :
    (ps.filterMap address?).getLast? = if .hole arg ∈ ps then some address else none := by
  induction ps with
  | nil => rfl
  | cons p ps ih =>
    have rest := ih fun q mem => e q (List.mem_cons_of_mem _ mem)
    by_cases same : p = .hole arg
    · subst same
      rw [List.filterMap_cons_some (by rw [e _ List.mem_cons_self, if_pos rfl]), List.getLast?_cons,
        rest, if_pos List.mem_cons_self]
      split <;> rfl
    · have other : Piece.hole arg ≠ p := Ne.symm same
      rw [List.filterMap_cons_none (by rw [e _ List.mem_cons_self, if_neg same]), rest]
      simp [other]

/-- The placeholders that are left, and no variable that they could mean. -/
structure Open (f : Template) (given : Text → Option Text) (ps : List Piece) (m : Machine) :
    Prop where
  alone : ∀ name, m.symbols.variableIn name .everywhere = none
  left : ∀ inside, .hole inside ∈ ps → inside ∈ f.names ∧ given inside = none

/-- When the first argument for a name is bound, the placeholders of this name mean it, and the
others mean nothing yet. -/
lemma Stage.resolve_new (stage : Stage f calls given shown ps m) (opened : Open f given ps m)
    {address v} (found : (m.bind arg t scope).symbols.variableIn arg scope = some (address, v))
    {inside : Text} (hole : .hole inside ∈ ps) :
    (m.bind arg t scope).symbols.resolve (Text.trim inside) scope =
      if inside = arg then some (address, v) else none := by
  have int := stage.visited.integrity
  obtain ⟨mem, new⟩ := opened.left inside hole
  rw [trim_of_mem_names mem, Table.resolve]
  split
  · rename_i e
    rw [e, found]
    rfl
  · rename_i ne
    have missing : m.symbols.variableIn inside scope = none := by
      simpa [new] using stage.texts inside mem
    have other : ¬ (inside = arg ∧ scope = scope) := fun e => ne e.1
    have inner : ¬ (inside = arg ∧ Scope.everywhere = scope) := by
      rintro ⟨-, e⟩
      cases e
    rw [int.variableIn_bind_of_ne other, missing, int.variableIn_bind_of_ne inner, opened.alone]
    rfl

/-- A placeholder is filled in when an argument is given for the first time. -/
lemma Stage.bind_new (stage : Stage f calls given shown ps m) (opened : Open f given ps m)
    (mem : arg ∈ f.names) (new : given arg = none) (clean : t.Clean) :
    Stage f calls (Function.update given arg (some t)) (if .hole arg ∈ ps then some arg else shown)
      (ps.flatMap (Piece.fill (Function.update (fun _ => none) arg (some t))))
      (m.bind arg t scope) := by
  have int := stage.visited.integrity
  have absent : m.symbols.variableIn arg scope = none := by
    simpa [new] using stage.texts arg mem
  obtain ⟨⟨address, v⟩, found, text⟩ := Option.map_eq_some_iff.1 (variableIn_bind int arg t scope)
  refine stage.bind (.call stage.known) ?_ ?_ (stage.texts_bind arg t) (stage.clean_update clean) ?_
  · -- there is no change to follow, so the string is only filled in
    intro node shape value bound table node'
    have same : node' = node.substitute table 0 := by
      show (node.rebound (m.symbols.variableIn arg scope) t).substitute table 0 = _
      rw [absent]
      rfl
    have parent : Scope.enclosing 0 node.parent = scope :=
      congrArg (fun s : Shape => Scope.enclosing 0 s.parent) shape
    have read : Piece.ofText node.value = ps := value ▸ Piece.ofText_source stage.legible
    constructor
    · rw [same, Node.value_substitute, read, parent]
      congr 1
      refine Piece.fill_congr fun inside hole => ?_
      rw [Table.meaning, stage.resolve_new opened found hole]
      by_cases e : inside = arg
      · subst e
        simp [text, clean.trimmed]
      · simp [e]
    · have addresses : ∀ p ∈ ps, Piece.address? table scope p =
          if p = .hole arg then some address else none := by
        intro p hole
        cases p with
        | char c => simp [Piece.address?]
        | hole inside =>
          rw [Piece.address?, stage.resolve_new opened found hole]
          by_cases e : inside = arg <;> simp [e]
      rw [same, Node.bound_substitute, read, parent, getLast?_filterMap addresses]
      split
      · simp [table, found]
      · rw [Option.none_or, bound, stage.address_shown]
  · -- an argument brings no placeholder with it
    refine stage.legible.fill fun inside t' e => ?_
    by_cases same : inside = arg
    · subst same
      rw [Function.update_self] at e
      cases e
      exact clean.toInert.harmless
    · rw [Function.update_of_ne same] at e
      cases e
  · intro arg' shows
    split at shows
    · cases shows
      exact ⟨mem, by simp⟩
    · exact stage.shows_update arg' shows

/-- When an argument is bound and filled in, the placeholders of the other names are left. -/
lemma Stage.open_bind (stage : Stage f calls given shown ps m) (opened : Open f given ps m) :
    Open f (Function.update given arg (some t))
      (ps.flatMap (Piece.fill (Function.update (fun _ => none) arg (some t))))
      (m.bind arg t scope) where
  alone name := by
    have inner : ¬ (name = arg ∧ Scope.everywhere = scope) := fun e => nomatch e.2
    rw [stage.visited.integrity.variableIn_bind_of_ne inner, opened.alone]
  left inside hole := by
    obtain ⟨hole, missing⟩ := Piece.hole_mem_fill.1 hole
    have ne : inside ≠ arg := by
      rintro rfl
      rw [Function.update_self] at missing
      cases missing
    rw [Function.update_of_ne ne]
    exact opened.left inside hole

/-- Binds arguments under names, one after the other. -/
def bindAll (pairs : List (Text × Text)) (m : Machine) : Machine :=
  pairs.foldl (fun m pair => m.bind pair.1 pair.2 scope) m

/-- Names in a row, each with an argument. -/
structure Fits (f : Template) (pairs : List (Text × Text)) : Prop where
  nodup : (pairs.map Prod.fst).Nodup
  listed : ∀ pair ∈ pairs, pair.1 ∈ f.names
  clean : ∀ pair ∈ pairs, pair.2.Clean

variable {pairs : List (Text × Text)}

/-- The first name is an argument of the function, and what is given for it is clean. -/
lemma Fits.head (fits : Fits f ((arg, t) :: pairs)) : arg ∈ f.names ∧ t.Clean :=
  ⟨fits.listed _ List.mem_cons_self, fits.clean _ List.mem_cons_self⟩

/-- The names behind the first one fit as well. -/
lemma Fits.tail (fits : Fits f ((arg, t) :: pairs)) : Fits f pairs where
  nodup := (List.nodup_cons.1 fits.nodup).2
  listed pair mem := fits.listed pair (List.mem_cons_of_mem _ mem)
  clean pair mem := fits.clean pair (List.mem_cons_of_mem _ mem)

/-- No name comes a second time. -/
lemma Fits.head_ne (fits : Fits f ((arg, t) :: pairs)) {pair : Text × Text} (mem : pair ∈ pairs) :
    pair.1 ≠ arg :=
  fun e => (List.nodup_cons.1 fits.nodup).1 (List.mem_map.2 ⟨pair, mem, e⟩)

/-- Nothing else is given for the first name later in the row. -/
lemma Fits.lookup_head (fits : Fits f ((arg, t) :: pairs)) : pairs.lookup arg = none := by
  rw [List.lookup_eq_none_iff]
  intro pair mem
  simpa using (fits.head_ne mem).symm

/-- What is given after all bindings: of the names in the row the new arguments, of others the old
ones. -/
lemma Fits.given_cons (fits : Fits f ((arg, t) :: pairs)) (given : Text → Option Text) :
    (fun x => (pairs.lookup x).or (Function.update given arg (some t) x)) =
      fun x => (((arg, t) :: pairs).lookup x).or (given x) := by
  funext x
  by_cases e : x = arg
  · subst e
    rw [fits.lookup_head, Function.update_self, List.lookup_cons_self]
    rfl
  · rw [Function.update_of_ne e, List.lookup_cons, beq_false_of_ne e]

/-- Filling in the first argument and then the others is filling in all of them. -/
lemma Fits.fill_cons (fits : Fits f ((arg, t) :: pairs)) (ps : List Piece) :
    (ps.flatMap (Piece.fill (Function.update (fun _ => none) arg (some t)))).flatMap
      (Piece.fill fun x => pairs.lookup x) =
        ps.flatMap (Piece.fill fun x => ((arg, t) :: pairs).lookup x) := by
  have whole : ∀ inside t', Function.update (fun _ => none) arg (some t) inside = some t' →
      ((arg, t) :: pairs).lookup inside = some t' := by
    intro inside t' e
    by_cases same : inside = arg
    · subst same
      rw [Function.update_self] at e
      rw [List.lookup_cons_self, e]
    · rw [Function.update_of_ne same] at e
      cases e
  refine Eq.trans (Piece.fill_congr fun inside hole => ?_) (Piece.flatMap_fill_fill ps whole)
  have ne : inside ≠ arg := by
    rintro rfl
    simpa using (Piece.hole_mem_fill.1 hole).2
  rw [List.lookup_cons, beq_false_of_ne ne]

/-- The last name that has a placeholder. -/
def lastIn (ps : List Piece) (names : List Text) : Option Text :=
  (names.filter fun x => .hole x ∈ ps).getLast?

/-- The last name that has a placeholder, told from the first name on. -/
lemma lastIn_cons (ps : List Piece) (names : List Text) :
    (lastIn ps names).or (if .hole arg ∈ ps then some arg else shown) =
      (lastIn ps (arg :: names)).or shown := by
  by_cases hole : .hole arg ∈ ps
  · simp only [lastIn, hole, if_true, List.filter_cons, decide_true, List.getLast?_cons]
    cases (names.filter fun x => .hole x ∈ ps).getLast? <;> rfl
  · simp [lastIn, hole]

/-- Filling in the first argument takes no placeholder from the later names. -/
lemma Fits.lastIn_fill (fits : Fits f ((arg, t) :: pairs)) (ps : List Piece) :
    lastIn (ps.flatMap (Piece.fill (Function.update (fun _ => none) arg (some t))))
      (pairs.map Prod.fst) = lastIn ps (pairs.map Prod.fst) := by
  unfold lastIn
  congr 1
  refine List.filter_congr fun x mem => ?_
  obtain ⟨pair, later, rfl⟩ := List.mem_map.1 mem
  rw [decide_eq_decide, Piece.hole_mem_fill, Function.update_of_ne (fits.head_ne later)]
  exact and_iff_left rfl

/-- In a first call all placeholders of the names are filled in, and the last of these names that
has a placeholder is shown. -/
lemma Stage.bindAll_new (stage : Stage f calls given shown ps m) (opened : Open f given ps m)
    (fits : Fits f pairs) (new : ∀ pair ∈ pairs, given pair.1 = none) :
    Stage f calls (fun x => (pairs.lookup x).or (given x))
      ((lastIn ps (pairs.map Prod.fst)).or shown)
      (ps.flatMap (Piece.fill fun x => pairs.lookup x)) (bindAll pairs m) := by
  induction pairs generalizing given shown ps m with
  | nil => simpa [lastIn, bindAll, Piece.fill_eq_self] using stage
  | cons pair pairs ih =>
    obtain ⟨arg, t⟩ := pair
    obtain ⟨mem, clean⟩ := fits.head
    have bound := stage.bind_new opened mem (new _ List.mem_cons_self) clean
    have later := ih bound (stage.open_bind opened) fits.tail fun pair mem => by
      rw [Function.update_of_ne (fits.head_ne mem)]
      exact new pair (List.mem_cons_of_mem _ mem)
    rw [fits.given_cons, fits.fill_cons, fits.lastIn_fill, lastIn_cons] at later
    exact later

/-! ### Later calls -/

variable {text old : Text}

/-- A binding leads to a stage with another text. Where there are only characters, it is enough to
see how the string follows. -/
lemma Stage.bind_text (stage : Stage f calls given shown (text.map .char) m) {given'}
    {name new : Text} {text' : Text} {scope' : Scope} (declares : m.Declares scope')
    (string : ∀ node : Node, node.value = text →
      (node.bound = shown.bind fun arg => (m.symbols.variableIn arg scope).map Prod.fst) →
      let node' := node.rebound (m.symbols.variableIn name scope') new
      node'.value = text' ∧ node'.bound = node.bound)
    (legible : Piece.Legible (text'.map .char))
    (texts : ∀ arg ∈ f.names, ((m.bind name new scope').symbols.variableIn arg scope).map
      (fun (_, v) => v.text) = given' arg)
    (clean : ∀ arg t, given' arg = some t → t.Clean)
    (shows : ∀ arg ∈ shown, arg ∈ f.names ∧ (given' arg).isSome = true) :
    Stage f calls given' shown (text'.map .char) (m.bind name new scope') := by
  refine stage.bind declares ?_ legible texts clean shows
  intro node shape value bound table node'
  rw [Piece.source_chars] at value
  obtain ⟨followed, kept⟩ := string node value bound
  have same : node' = node.rebound _ new := Node.substitute_chars legible followed
  rw [same, followed, kept, bound, Piece.source_chars, stage.address_shown]
  exact ⟨rfl, rfl⟩

/-- The string follows the argument that it shows, and no other. -/
lemma Stage.bind_again (stage : Stage f calls given shown (text.map .char) m) (mem : arg ∈ f.names)
    (before : given arg = some old) (clean : t.Clean) :
    Stage f calls (Function.update given arg (some t)) shown
      ((if shown = some arg then Text.replace old t text else text).map .char)
      (m.bind arg t scope) := by
  have int := stage.visited.integrity
  have cleanOld := stage.clean arg old before
  obtain ⟨address, v, found, rfl⟩ := stage.variable_of_given mem before
  refine stage.bind_text (.call stage.known) ?_ ?_ (stage.texts_bind arg t)
    (stage.clean_update clean) stage.shows_update
  · -- there is nothing to fill in, so the string only follows
    intro node value bound
    by_cases last : shown = some arg
    · have shows : node.bound = some address := by simp [bound, last, found]
      rw [found, if_pos last]
      simp only [Node.rebound, shows, if_true]
      rw [cleanOld.trimmed, clean.trimmed, Node.value_follow cleanOld.ne, value, Node.bound_follow]
      exact ⟨rfl, shows⟩
    · -- if another variable is shown, it has another address
      have other : node.bound ≠ some address := by
        rw [bound]
        intro same
        obtain ⟨s, hs, e⟩ := Option.bind_eq_some_iff.1 same
        obtain ⟨⟨_, w⟩, found', rfl⟩ := Option.map_eq_some_iff.1 e
        exact int.address_ne found found' (fun names => last (names.1 ▸ hs)) rfl
      rw [if_neg last, Node.rebound_eq_self]
      · exact ⟨value, rfl⟩
      · intro address' v' found'
        cases found.symm.trans found'
        exact other
  · split
    · exact stage.legible.replace cleanOld.ne clean.toInert
    · exact stage.legible

/-- The text after a change of the arguments from `given` to `new`. -/
def follow (shown : Option Text) (given new : Text → Option Text) (text : Text) : Text :=
  shown.elim text fun arg => (new arg).elim text fun t => Text.replace ((given arg).getD []) t text

/-- What follows the first binding and then the others follows all of them. -/
lemma Fits.follow_cons (fits : Fits f ((arg, t) :: pairs)) (before : given arg = some old) :
    follow shown (Function.update given arg (some t)) (fun x => pairs.lookup x)
      (if shown = some arg then Text.replace old t text else text) =
        follow shown given (fun x => ((arg, t) :: pairs).lookup x) text := by
  cases shown with
  | none => rfl
  | some s =>
    by_cases e : s = arg
    · subst e
      simp [follow, fits.lookup_head, before]
    · have ne : some s ≠ some arg := fun same => e (Option.some.inj same)
      simp [follow, ne, Function.update_of_ne e, List.lookup_cons, beq_false_of_ne e]

/-- In a later call the string follows the one argument that it shows. -/
lemma Stage.bindAll_again (stage : Stage f calls given shown (text.map .char) m)
    (fits : Fits f pairs) (before : ∀ arg ∈ f.names, (given arg).isSome = true) :
    Stage f calls (fun x => (pairs.lookup x).or (given x)) shown
      ((follow shown given (fun x => pairs.lookup x) text).map .char) (bindAll pairs m) := by
  induction pairs generalizing given text m with
  | nil =>
    have same : follow shown given (fun x => ([] : List (Text × Text)).lookup x) text = text := by
      cases shown <;> rfl
    rw [same]
    exact stage
  | cons pair pairs ih =>
    obtain ⟨arg, t⟩ := pair
    obtain ⟨mem, clean⟩ := fits.head
    obtain ⟨old, ho⟩ := Option.isSome_iff_exists.1 (before arg mem)
    have later := ih (stage.bind_again mem ho clean) fits.tail fun arg' mem' => by
      by_cases e : arg' = arg
      · simp [e]
      · rw [Function.update_of_ne e]
        exact before arg' mem'
    rw [fits.given_cons, fits.follow_cons ho] at later
    exact later

/-- What is bound outside the block changes nothing in the string. -/
lemma Stage.bind_everywhere (stage : Stage f calls given shown (text.map .char) m)
    (declares : m.Declares .everywhere) (name new : Text) :
    Stage f calls given shown (text.map .char) (m.bind name new .everywhere) := by
  have int := stage.visited.integrity
  have outer : ∀ arg, ¬ (arg = name ∧ scope = .everywhere) := fun arg e => nomatch e.2
  refine stage.bind_text declares ?_ stage.legible ?_ stage.clean stage.shows
  · intro node value bound
    rw [Node.rebound_eq_self]
    · exact ⟨value, rfl⟩
    · intro address v found same
      obtain ⟨s, hs, e⟩ := Option.bind_eq_some_iff.1 (bound.symm.trans same)
      obtain ⟨⟨_, w⟩, found', rfl⟩ := Option.map_eq_some_iff.1 e
      exact int.address_ne found found' (outer s) rfl
  · intro arg mem
    rw [int.variableIn_bind_of_ne (outer arg)]
    exact stage.texts arg mem

/-! ### Calls as a whole -/

/-- What a call gives for the names, in order. -/
def Call.bindings (call : f.Call) : List (Text × Text) :=
  f.names.zip (call.args.map Text.trim)

/-- A call gives an argument for every name, in order. -/
lemma Call.fst_bindings (call : f.Call) : call.bindings.map Prod.fst = f.names := by
  refine List.map_fst_zip ?_
  simp [names, call.length_eq]

/-- The arguments of a call are clean when they are trimmed. -/
lemma Call.clean_args (call : f.Call) {a : Text} (mem : a ∈ call.args) :
    (Text.trim a).Clean where
  ne := (call.args_ok a mem).2
  opening found := ((call.args_ok a mem).1 _ (Text.trim_subset a found)).2.2.1 rfl
  number found := ((call.args_ok a mem).1 _ (Text.trim_subset a found)).2.2.2.2 rfl
  trimmed := Text.trim_trim a

/-- The arguments of a call fit the names. -/
lemma Call.fits (call : f.Call) : Fits f call.bindings where
  nodup := call.fst_bindings ▸ f.names_nodup
  listed pair mem := call.fst_bindings ▸ List.mem_map_of_mem mem
  clean pair mem := by
    obtain ⟨a, listed, e⟩ := List.mem_map.1 (List.of_mem_zip mem).2
    exact e ▸ call.clean_args listed

/-- Binding the arguments of a call is binding them under their names. -/
lemma Call.bindArguments (call : f.Call) (m : Machine) :
    m.bindArguments f.toFunction (call.args.map Text.trim) = bindAll call.bindings m := by
  rw [Machine.bindArguments, bindAll, Call.bindings, names, List.zip_map_left, List.foldl_map]
  rfl

/-- The argument that a call gives for a name. -/
def Call.argument (call : f.Call) (arg : Text) : Text :=
  (call.bindings.lookup arg).getD []

/-- For every name, the argument of the call is found. -/
lemma Call.lookup_bindings (call : f.Call) (mem : arg ∈ f.names) :
    call.bindings.lookup arg = some (call.argument arg) := by
  have there : call.bindings.lookup arg ≠ none := by
    rw [← call.fst_bindings] at mem
    obtain ⟨pair, listed, rfl⟩ := List.mem_map.1 mem
    intro none
    simpa using List.lookup_eq_none_iff.1 none pair listed
  obtain ⟨t, e⟩ := Option.ne_none_iff_exists'.1 there
  rw [argument, e]
  rfl

/-- Every argument of a call is clean. -/
lemma Call.clean_argument (call : f.Call) (mem : arg ∈ f.names) : (call.argument arg).Clean := by
  obtain ⟨front, back, e, -⟩ := List.lookup_eq_some_iff.1 (call.lookup_bindings mem)
  exact call.fits.clean (arg, call.argument arg) (e ▸ List.mem_append_right _ List.mem_cons_self)

/-- The string with the arguments of a call in the places of the placeholders. -/
def Call.filled (call : f.Call) : Text :=
  f.pieces.flatMap (Piece.written call.argument)

/-- The names that have a placeholder. -/
def mentioned (f : Template) : List Text :=
  f.names.filter fun arg => .hole arg ∈ f.pieces

/-- The name that the string shows: the last one that has a placeholder. -/
def lastName (f : Template) : Option Text :=
  f.mentioned.getLast?

/-- What a call makes of the text that an earlier call has left. -/
def Call.followed (before call : f.Call) (text : Text) : Text :=
  f.lastName.elim text fun arg => Text.replace (before.argument arg) (call.argument arg) text

/-- After a call, its arguments are given, and the string is a text without placeholders. -/
def Ready (calls : List f.Call) (call : f.Call) (text : Text) : Machine → Prop :=
  Stage f calls (fun x => call.bindings.lookup x) f.lastName (text.map .char)

variable {call before : f.Call}

/-- The first call fills in the string. -/
lemma Stage.first_call (stage : Stage f calls (fun _ => none) none f.pieces m)
    (alone : ∀ name, m.symbols.variableIn name .everywhere = none) (call : f.Call) :
    Ready calls call call.filled (m.bindArguments f.toFunction (call.args.map Text.trim)) := by
  have opened : Open f (fun _ => none) f.pieces m :=
    ⟨alone, fun inside hole => ⟨mem_names_of_hole hole, rfl⟩⟩
  have bound := stage.bindAll_new opened call.fits fun _ _ => rfl
  have chars : f.pieces.flatMap (Piece.fill fun x => call.bindings.lookup x) =
      call.filled.map .char :=
    Piece.fill_eq_chars fun inside hole => call.lookup_bindings (mem_names_of_hole hole)
  have last : (lastIn f.pieces (call.bindings.map Prod.fst)).or none = f.lastName := by
    rw [call.fst_bindings, Option.or_none]
    rfl
  rw [chars, last] at bound
  rw [call.bindArguments, Ready]
  simpa using bound

/-- After a call, nothing is left of the arguments of an earlier one. -/
lemma Call.bindings_or (call before : f.Call) :
    (fun x => (call.bindings.lookup x).or (before.bindings.lookup x)) =
      fun x => call.bindings.lookup x := by
  funext x
  by_cases mem : x ∈ f.names
  · rw [call.lookup_bindings mem]
    rfl
  · have missing : before.bindings.lookup x = none := by
      rw [List.lookup_eq_none_iff]
      intro pair listed
      have ne : x ≠ pair.1 := fun e => mem (e ▸ before.fits.listed pair listed)
      simpa using ne
    rw [missing, Option.or_none]

/-- A later call changes the one argument that is shown. -/
lemma Ready.later_call (ready : Ready calls before text m) (call : f.Call) :
    Ready calls call (before.followed call text)
      (m.bindArguments f.toFunction (call.args.map Text.trim)) := by
  have bound := Stage.bindAll_again ready call.fits fun arg mem => by
    rw [before.lookup_bindings mem]
    rfl
  have same : follow f.lastName (fun x => before.bindings.lookup x)
      (fun x => call.bindings.lookup x) text = before.followed call text := by
    unfold follow Call.followed
    cases e : f.lastName with
    | none => rfl
    | some arg =>
      have mem : arg ∈ f.names := (ready.shows arg e).1
      simp [call.lookup_bindings mem, before.lookup_bindings mem]
  rw [call.bindings_or, same] at bound
  rw [call.bindArguments]
  exact bound

end Template

end Sigil
