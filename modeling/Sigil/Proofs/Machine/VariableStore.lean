import Mathlib.Data.List.Infix
import Mathlib.Logic.Function.Basic
import Mathlib.Tactic.Common
import Sigil.Proofs.Machine.Argument
import Sigil.Proofs.Machine.Lines

/-!
# Declarations and prints

A script in which every line declares a variable or prints one is a plain variable store: a print
gives the content that was declared last (`Line.printed`). The machine comes to this in another way.
It does not look at variables when it prints. Each declaration goes through all strings of the
script, fills in the placeholders of its name, and changes the strings that show the variable.

`Stage` says what the strings are for given contents of the variables. A declaration leads from one
stage to the next (`Stage.bind`): a placeholder is filled in once, and later contents take the place
of the one that the string is made of. A print finds in its string what the store has
(`Stage.textAt_print`).
-/

namespace Sigil

/-- The text does not have the mark of a placeholder in it. -/
def Text.Unmarked (t : Text) : Prop :=
  ¬ ['[', '#'] <:+: t

instance (t : Text) : Decidable t.Unmarked :=
  inferInstanceAs (Decidable (¬ ['[', '#'] <:+: t))

/-- A name as it can be declared and stand in a placeholder. -/
structure VariableName where
  text : Text
  trimmed : Text.trim text = text
  ne : text ≠ []
  quotable : Phrase.Quotable text
  equals : '=' ∉ text
  closing : ']' ∉ text
  unmarked : text.Unmarked

/-- What a variable can be declared to be. -/
structure Text.IsContent (t : Text) : Prop where
  trimmed : trim t = t
  ne : t ≠ []
  quotable : Phrase.Quotable t
  unmarked : t.Unmarked

/-- A line that declares a variable or prints one. -/
inductive Line where
  | declare (name : VariableName) (content : Text) (ok : content.IsContent)
  | print (name : VariableName)

namespace Line

/-- The variable of the line. -/
def name : Line → VariableName
  | declare name _ _ => name
  | print name => name

/-- The statement on the line. -/
def phrase : Line → Phrase
  | declare name content _ => ⟨.declare, name.text ++ " = ".toList ++ content⟩
  | print name => ⟨.print, (Piece.hole name.text).source⟩

/-! ### The store -/

/-- The contents of the variables after the line. -/
def store (σ : Text → Option Text) : Line → Text → Option Text
  | declare name content _ => Function.update σ name.text (some content)
  | print _ => σ

/-- What the line prints. A variable without a content is printed as its placeholder. -/
def prints (σ : Text → Option Text) : Line → List Text
  | declare _ _ _ => []
  | print name => [(σ name.text).getD (Piece.hole name.text).source]

/-- What lines print one after the other. -/
def printed (σ : Text → Option Text) : List Line → List Text
  | [] => []
  | line :: lines => line.prints σ ++ printed (line.store σ) lines

/-- A further line prints by the contents after the lines before it. -/
lemma printed_snoc (σ : Text → Option Text) (lines : List Line) (line : Line) :
    printed σ (lines ++ [line]) = printed σ lines ++ line.prints (lines.foldl store σ) := by
  induction lines generalizing σ with
  | nil => simp [printed]
  | cons first lines ih => simp [printed, ih]

end Line

/-! ### Texts without marks -/

/-- A text without marks is read as plain characters. -/
lemma Text.Unmarked.legible {t : Text} (h : t.Unmarked) : Piece.Legible (t.map .char) := by
  induction t with
  | nil => exact ⟨.nil, nofun⟩
  | cons c t ih =>
    have rest := ih fun found => h (found.trans (List.suffix_cons c t).isInfix)
    refine ⟨List.isChain_cons.2 ⟨fun q hq e e' => ?_, rest.apart⟩, fun inside mem => ?_⟩
    · subst e'
      cases e
      cases t with
      | nil => cases hq
      | cons d t =>
        cases hq
        exact h ⟨[], t, rfl⟩
    · simp at mem

/-- The placeholder of a name that can be declared is read as such. -/
lemma VariableName.legible_hole (x : VariableName) : Piece.Legible [.hole x.text] := by
  refine ⟨.singleton _, fun inside mem => ?_⟩
  cases List.mem_singleton.1 mem
  exact x.closing

/-- A reference from everywhere sees only the variables that are there everywhere. -/
lemma Table.resolve_everywhere (t : Table) (name : Text) :
    t.resolve name .everywhere = t.variableIn name .everywhere := by
  rw [resolve]
  cases t.variableIn name .everywhere <;> rfl

/-- The string of a declaration is left alone by all variables. -/
lemma Line.legible_declare (name : VariableName) {content : Text} (ok : content.IsContent) :
    Piece.Legible ((name.text ++ " = ".toList ++ content).map .char) := by
  have front := name.unmarked.legible.apart
  have back := ok.unmarked.legible.apart
  refine ⟨?_, fun inside mem => by simp at mem⟩
  simp only [List.map_append, List.append_assoc]
  refine List.isChain_append.2 ⟨front, ?_, fun p _ q hq _ => ?_⟩
  · refine List.isChain_append.2 ⟨by decide, back, fun p hp q _ e => ?_⟩
    subst e
    simp at hp
  · rintro rfl
    simp at hq

/-! ### Strings of the script -/

/-- What the string of a line is, for given contents of the variables. -/
def Line.Shown (σ : Text → Option Text) (table : Table) (node : Node) : Line → Prop
  | declare name content _ =>
    node.value = name.text ++ " = ".toList ++ content ∧ node.bound = none
  | print name =>
    match σ name.text with
    | none => node.value = (Piece.hole name.text).source ∧ node.bound = none
    | some content =>
      node.value = content ∧ node.bound = (table.variableIn name.text .everywhere).map Prod.fst

/-- What is known of a machine when the variables of some lines have these contents. -/
structure Line.Stage (id : ScriptId) (lines : List Line) (σ : Text → Option Text) (m : Machine) :
    Prop where
  visited : Visited m
  running : m.interrupted = false
  length : (m.nodes id).length = 2 * lines.length
  word : ∀ ⦃k : Nat⦄ ⦃line : Line⦄, lines[k]? = some line → (m.nodes id)[2 * k]? =
    some { kind := .keyword, parent := none, value := line.phrase.word.name.toList }
  string : ∀ ⦃k : Nat⦄ ⦃line : Line⦄, lines[k]? = some line → ∃ node,
    (m.nodes id)[2 * k + 1]? = some node ∧ node.kind = .string ∧ node.parent = none ∧
      line.Shown σ m.symbols node
  texts : ∀ line ∈ lines, (m.symbols.variableIn line.name.text .everywhere).map
    (fun (_, v) => v.text) = σ line.name.text
  contents : ∀ x t, σ x = some t → t.IsContent

/-- A node without marks that shows nothing is not touched by a binding. -/
lemma Node.substitute_rebound {node : Node} (bound : node.bound = none)
    (legible : Piece.Legible (node.value.map .char)) (old : Option (Address × Variable))
    (text : Text) (table : Table) (id : ScriptId) :
    (node.rebound old text).substitute table id = node := by
  have same : node.rebound old text = node :=
    Node.rebound_eq_self (fun _ _ _ => by simp [bound]) text
  rw [same]
  exact Node.substitute_chars legible rfl

namespace Line

variable {id : ScriptId} {lines : List Line} {σ : Text → Option Text} {m : Machine}
  {name : VariableName} {content : Text}

section
variable {line : Line} {node : Node}

/-- A placeholder is filled in when its name is declared. -/
lemma substitute_hole {table : Table} (outside : node.parent = none)
    (value : node.value = (Piece.hole name.text).source) :
    (node.substitute table id).value =
        (((table.variableIn name.text .everywhere).map fun (_, v) => Text.trim v.text).getD
          (Piece.hole name.text).source) ∧
      (node.substitute table id).bound =
        ((table.variableIn name.text .everywhere).map Prod.fst).or node.bound := by
  have read : Piece.ofText node.value = [.hole name.text] := by
    rw [value, ← List.flatMap_singleton Piece.source (.hole name.text)]
    exact Piece.ofText_source name.legible_hole
  have resolve : table.resolve (Text.trim name.text) (.enclosing id none) =
      table.variableIn name.text .everywhere := by
    rw [name.trimmed]
    exact table.resolve_everywhere name.text
  constructor
  · rw [Node.value_substitute, read, outside, List.flatMap_singleton, Piece.fill, Table.meaning,
      resolve]
    cases table.variableIn name.text .everywhere with
    | none => exact List.flatMap_singleton _ _
    | some found => exact Piece.source_chars _
  · have address : [Piece.hole name.text].filterMap (Piece.address? table (.enclosing id none)) =
        ((table.variableIn name.text .everywhere).map Prod.fst).toList := by
      rw [List.filterMap_cons, Piece.address?, resolve]
      cases table.variableIn name.text .everywhere <;> rfl
    rw [Node.bound_substitute, read, outside, address]
    cases table.variableIn name.text .everywhere <;> rfl

/-- A string that consists of the content of a variable follows its change. -/
lemma rebound_content {address : Address} {v : Variable} (content_eq : node.value = v.text)
    (bound : node.bound = some address) (old : v.text.IsContent) (ok : content.IsContent) :
    (node.rebound (some (address, v)) content).value = content ∧
      (node.rebound (some (address, v)) content).bound = some address := by
  have follows : node.rebound (some (address, v)) content = node.follow v.text content := by
    rw [Node.rebound, if_pos bound, old.trimmed, ok.trimmed]
  have replaced : Text.replace v.text content v.text = content := by
    have whole := @Text.replace_append v.text content [] old.ne
    rw [List.append_nil] at whole
    exact whole.trans (List.append_nil _)
  rw [follows, Node.value_follow old.ne, content_eq, Node.bound_follow]
  exact ⟨replaced, bound⟩

/-- What a declaration does to a string that prints its variable. -/
lemma Shown.bind_same (shown : (print name).Shown σ m.symbols node) (int : Integrity m)
    (outside : node.parent = none) (ok : content.IsContent)
    (text : (m.symbols.variableIn name.text .everywhere).map (fun (_, v) => v.text) = σ name.text)
    (contents : ∀ x t, σ x = some t → t.IsContent) :
    let table := (m.bind name.text content .everywhere).symbols
    let node' := (node.rebound (m.symbols.variableIn name.text .everywhere) content).substitute
      table id
    node'.value = content ∧
      node'.bound = (table.variableIn name.text .everywhere).map Prod.fst := by
  intro table node'
  obtain ⟨⟨address, v⟩, found, e⟩ :=
    Option.map_eq_some_iff.1 (variableIn_bind int name.text content .everywhere)
  cases old : m.symbols.variableIn name.text .everywhere with
  | none =>
    -- the placeholder is still there, and is filled in
    rw [old] at text
    simp only [Shown, ← text, Option.map_none] at shown
    have same : node' = node.substitute table id := by
      simp only [node', old]
      rfl
    obtain ⟨value, bound⟩ := @substitute_hole id name node table outside shown.1
    rw [same, value, bound, found]
    exact ⟨(congrArg Text.trim e).trans ok.trimmed, rfl⟩
  | some entry =>
    obtain ⟨a, w⟩ := entry
    rw [old] at text
    have isContent : w.text.IsContent := contents _ _ text.symm
    simp only [Shown, ← text, Option.map_some, old] at shown
    obtain ⟨value, bound⟩ := rebound_content shown.1 shown.2 isContent ok
    have same : node' = node.rebound (some (a, w)) content := by
      simp only [node', old]
      exact Node.substitute_chars ok.unmarked.legible value
    rw [same, value, bound, int.variableIn_bind_of_some old]
    exact ⟨rfl, rfl⟩

/-- What a declaration does to a string that prints another variable. -/
lemma Shown.bind_other {name' : VariableName} (shown : (print name').Shown σ m.symbols node)
    (int : Integrity m) (outside : node.parent = none) (ne : name'.text ≠ name.text)
    (text : (m.symbols.variableIn name'.text .everywhere).map (fun (_, v) => v.text) =
      σ name'.text) (contents : ∀ x t, σ x = some t → t.IsContent) :
    let table := (m.bind name.text content .everywhere).symbols
    let node' := (node.rebound (m.symbols.variableIn name.text .everywhere) content).substitute
      table id
    (print name').Shown σ table node' := by
  intro table node'
  have kept : table.variableIn name'.text .everywhere =
      m.symbols.variableIn name'.text .everywhere := int.variableIn_bind_of_ne fun same => ne same.1
  cases old : m.symbols.variableIn name'.text .everywhere with
  | none =>
    rw [old] at text
    simp only [Shown, ← text, Option.map_none] at shown ⊢
    have same : node' = node.substitute table id :=
      congrArg (Node.substitute table id) (Node.rebound_eq_self (fun _ _ _ => by simp [shown.2]) _)
    obtain ⟨value, bound⟩ := @substitute_hole id name' node table outside shown.1
    rw [same, value, bound, kept, old, shown.2]
    exact ⟨rfl, rfl⟩
  | some entry =>
    obtain ⟨a, w⟩ := entry
    rw [old] at text
    have isContent : w.text.IsContent := contents _ _ text.symm
    simp only [Shown, ← text, Option.map_some, old] at shown
    -- the string shows another variable than the one that is declared
    have same : node.rebound (m.symbols.variableIn name.text .everywhere) content = node := by
      refine Node.rebound_eq_self (fun address v found => ?_) _
      rw [shown.2]
      exact fun e => int.address_ne found old (fun both => ne both.1) (Option.some.inj e)
    have unmarked : node.substitute table id = node :=
      Node.substitute_chars isContent.unmarked.legible shown.1
    simp only [Shown, ← text, Option.map_some, node', same, unmarked, kept, old]
    exact shown

/-- A string goes on to show what its line says when a variable is declared. -/
lemma Shown.bind {line : Line} (shown : line.Shown σ m.symbols node) (int : Integrity m)
    (outside : node.parent = none) (ok : content.IsContent)
    (text : (m.symbols.variableIn line.name.text .everywhere).map (fun (_, v) => v.text) =
      σ line.name.text) (contents : ∀ x t, σ x = some t → t.IsContent) :
    line.Shown (Function.update σ name.text (some content))
      (m.bind name.text content .everywhere).symbols
      ((node.rebound (m.symbols.variableIn name.text .everywhere) content).substitute
        (m.bind name.text content .everywhere).symbols id) := by
  cases line with
  | declare name' content' ok' =>
    have same := Node.substitute_rebound shown.2 (shown.1 ▸ legible_declare name' ok')
      (m.symbols.variableIn name.text .everywhere) content
      (m.bind name.text content .everywhere).symbols id
    rw [same]
    exact shown
  | print name' =>
    by_cases e : name'.text = name.text
    · obtain ⟨text, trimmed, ne, quotable, equals, closing, unmarked⟩ := name
      cases e
      simp only [Shown, Function.update_self]
      exact shown.bind_same int outside ok text contents
    · have other :=
        @Shown.bind_other id σ m name content node name' shown int outside e text contents
      simpa only [Shown, Function.update_of_ne e] using other

end

/-! ### Stages -/

/-- A stage does not depend on what else the machine holds. -/
lemma Stage.congr {m' : Machine} (stage : Stage id lines σ m) (visited : Visited m')
    (running : m'.interrupted = m.interrupted) (symbols : m'.symbols = m.symbols)
    (nodes : m'.nodes id = m.nodes id) : Stage id lines σ m' where
  visited := visited
  running := running.trans stage.running
  length := nodes ▸ stage.length
  word := nodes ▸ stage.word
  string := symbols ▸ nodes ▸ stage.string
  texts := symbols ▸ stage.texts
  contents := stage.contents

/-- On a stage the script has the statements of its lines. -/
lemma Stage.recites (stage : Stage id lines σ m) :
    m.Recites id (lines.map fun line => line.phrase.word) where
  length := by rw [stage.length, List.length_map]
  word k word e := by
    rw [List.getElem?_map, Option.map_eq_some_iff] at e
    obtain ⟨line, hk, rfl⟩ := e
    exact ⟨_, stage.word hk, rfl, rfl, rfl⟩
  string k word e := by
    rw [List.getElem?_map, Option.map_eq_some_iff] at e
    obtain ⟨line, hk, rfl⟩ := e
    obtain ⟨node, found, kind, outside, -⟩ := stage.string hk
    exact ⟨node, found, kind, outside⟩

/-- A declaration gives its variable a content and leaves the others as they were. -/
lemma Stage.bind (stage : Stage id lines σ m) (name : VariableName)
    (declares : m.Declares .everywhere) (ok : content.IsContent) :
    Stage id lines (Function.update σ name.text (some content))
      (m.bind name.text content .everywhere) := by
  have int := stage.visited.integrity
  have bound : Leads { loader := .ofList [] } m _ := .bound name.text content declares
  have nodes := int.nodes_bind name.text content .everywhere id
  refine ⟨stage.visited.leads bound, ?_, ?_, ?_, ?_, ?_, ?_⟩
  · exact (congrArg (·.2.2.1) (m.frame_bind name.text content .everywhere)).trans stage.running
  · rw [nodes, List.length_map, stage.length]
  · intro k line hk
    rw [nodes, List.getElem?_map, stage.word hk, Option.map_some]
    have opening : '[' ∉ line.phrase.word.name.toList := by cases line.phrase.word <;> decide
    exact congrArg some (Node.substitute_rebound rfl (Piece.legible_chars opening) _ _ _ _)
  · intro k line hk
    obtain ⟨node, found, kind, outside, shown⟩ := stage.string hk
    have shape : ∀ table, ((node.rebound (m.symbols.variableIn name.text .everywhere)
        content).substitute table id).toShape = node.toShape := by simp
    refine ⟨_, by rw [nodes, List.getElem?_map, found, Option.map_some], ?_, ?_, ?_⟩
    · exact (congrArg Shape.kind (shape _)).trans kind
    · exact (congrArg Shape.parent (shape _)).trans outside
    · exact shown.bind int outside ok (stage.texts line (List.mem_of_getElem? hk)) stage.contents
  · intro line listed
    by_cases same : line.name.text = name.text
    · rw [same, variableIn_bind int, Function.update_self]
    · rw [int.variableIn_bind_of_ne fun both => same both.1, Function.update_of_ne same]
      exact stage.texts line listed
  · intro x t e
    by_cases same : x = name.text
    · rw [same, Function.update_self] at e
      exact Option.some.inj e ▸ ok
    · rw [Function.update_of_ne same] at e
      exact stage.contents x t e

/-! ### Statements -/

section
variable {host : Host} {k : Nat} {line : Line}

/-- The beginning of a statement leaves a stage as it is. -/
lemma Stage.beginning (stage : Stage id lines σ m) (site : Site) :
    Stage id lines σ (m.beginning site) := by
  have began : Leads { loader := .ofList [] } m _ := .began site
  exact stage.congr (stage.visited.leads began) rfl rfl rfl

/-- The statements of a stage declare their variables everywhere. -/
lemma Stage.scopeOf_eq (stage : Stage id lines σ m) (hk : lines[k]? = some line) :
    m.scopeOf ⟨id, 2 * k⟩ = .everywhere := by
  rw [Machine.scopeOf, stage.word hk]
  rfl

/-- A declaration is read from its string. -/
lemma readDeclare_eq {site : Site} {ok : content.IsContent}
    (require : m.require site .declare .string 0 = .ok (declare name content ok).phrase.text) :
    Statement.readDeclare m site = .ok (.declare name.text content) := by
  have noMark : '=' ∉ name.text ++ [' '] := by
    intro mem
    rcases List.mem_append.1 mem with mem | mem
    · exact name.equals mem
    · simp at mem
  have cut : Text.cut ['='] (declare name content ok).phrase.text =
      some (name.text ++ [' '], ' ' :: content) := by
    have split : (declare name content ok).phrase.text =
        name.text ++ [' '] ++ '=' :: ' ' :: content := by simp [phrase]
    rw [split]
    exact Text.cut_append noMark _
  have front : Text.trim (name.text ++ [' ']) = name.text := by
    rw [Text.trim_append_blank (List.forall_mem_singleton.2 (by decide)), name.trimmed]
  have back : Text.trim (' ' :: content) = content := by
    rw [Text.trim_cons_blank (by decide), ok.trimmed]
  simp [Statement.readDeclare, require, cut, front, back, name.ne, ok.ne, Bind.bind, Except.bind]

/-- A declaration is carried out on the store. -/
lemma Stage.gives_declare {ok : content.IsContent} (stage : Stage id lines σ m)
    (hk : lines[k]? = some (declare name content ok)) :
    ∃ m', Gives host (.ofTask host (.statement ⟨id, 2 * k⟩) m) (.ok none m') ∧
      Stage id lines (Function.update σ name.text (some content)) m' ∧
      m'.journal = (m.beginning ⟨id, 2 * k⟩).journal := by
  have stage' := stage.beginning ⟨id, 2 * k⟩
  have word : (lines.map fun line => line.phrase.word)[k]? = some .declare := by
    rw [List.getElem?_map, hk]
    rfl
  obtain ⟨node, found, -, -, value, -⟩ := stage'.string hk
  have text : (m.beginning ⟨id, 2 * k⟩).textAt ⟨id, 2 * k + 1⟩ =
      (declare name content ok).phrase.text := by
    rw [Machine.textAt, found]
    exact value
  have read : Statement.ofKeyword host (m.beginning ⟨id, 2 * k⟩) ⟨id, 2 * k⟩ .declare =
      .ok (.declare name.text content) :=
    readDeclare_eq (text ▸ stage'.recites.require_string word .declare)
  have outside := stage'.scopeOf_eq hk
  refine ⟨_, stage.recites.gives_statement word read .done, ?_, ?_⟩
  · show Stage id lines _ ((m.beginning _).bind name.text content ((m.beginning _).scopeOf _))
    rw [outside]
    exact stage'.bind name (outside ▸ .statement ⟨id, 2 * k⟩) ok
  · exact congrArg (·.2.2.2) (Machine.frame_bind _ _ _ _)

/-- A print finds in its string what the store has. -/
lemma Stage.textAt_print (stage : Stage id lines σ m) (hk : lines[k]? = some (print name)) :
    m.textAt ⟨id, 2 * k + 1⟩ = (σ name.text).getD (Piece.hole name.text).source := by
  obtain ⟨node, found, -, -, shown⟩ := stage.string hk
  rw [Machine.textAt, found]
  simp only [Shown] at shown
  cases e : σ name.text with
  | none =>
    rw [e] at shown
    exact shown.1
  | some content =>
    rw [e] at shown
    exact shown.1

/-- A print adds to the journal what the store has, and leaves the stage. -/
lemma Stage.gives_print (stage : Stage id lines σ m) (hk : lines[k]? = some (print name)) :
    ∃ m', Gives host (.ofTask host (.statement ⟨id, 2 * k⟩) m) (.ok none m') ∧
      Stage id lines σ m' ∧
      m'.journal = .printed ((σ name.text).getD (Piece.hole name.text).source) ::
        (m.beginning ⟨id, 2 * k⟩).journal := by
  have stage' := stage.beginning ⟨id, 2 * k⟩
  have word : (lines.map fun line => line.phrase.word)[k]? = some .print := by
    rw [List.getElem?_map, hk]
    rfl
  have gives := @Machine.Recites.gives_print host m id _ k stage.recites word
  rw [stage.textAt_print hk] at gives
  have printed : Leads host (m.beginning ⟨id, 2 * k⟩) _ :=
    .printed ((σ name.text).getD (Piece.hole name.text).source)
  exact ⟨_, gives, stage'.congr (stage'.visited.leads printed) rfl rfl rfl, rfl⟩

/-- What is known after some lines of the script. -/
structure Done (id : ScriptId) (lines : List Line) (start : Machine) (k : Nat) (m : Machine) :
    Prop where
  stage : Stage id lines ((lines.take k).foldl store fun _ => none) m
  output : m.output = start.output ++ printed (fun _ => none) (lines.take k)
  diagnostics : m.diagnostics = start.diagnostics

/-- Every line does its part. -/
lemma Done.next {start : Machine} (done : Done id lines start k m) (hk : lines[k]? = some line) :
    ∃ value m', Gives host (.ofTask host (.statement ⟨id, 2 * k⟩) m) (.ok value m') ∧
      Done id lines start (k + 1) m' := by
  have taken : lines.take (k + 1) = lines.take k ++ [line] := by
    rw [List.take_add_one, hk]
    rfl
  have began := Machine.Unchanged.log m (.began ⟨id, 2 * k⟩ m.store.current m.depth) rfl rfl
  cases line with
  | declare name content ok =>
    obtain ⟨m', gives, stage, journal⟩ := done.stage.gives_declare hk
    refine ⟨none, m', gives, ?_, ?_, ?_⟩
    · rw [taken, List.foldl_append]
      exact stage
    · rw [taken, printed_snoc, prints, List.append_nil, ← done.output, Machine.output, journal]
      exact began.output
    · rw [← done.diagnostics, Machine.diagnostics, journal]
      exact began.diagnostics
  | print name =>
    obtain ⟨m', gives, stage, journal⟩ := done.stage.gives_print hk
    refine ⟨none, m', gives, ?_, ?_, ?_⟩
    · rw [taken, List.foldl_append]
      exact stage
    · rw [taken, printed_snoc, prints, ← List.append_assoc, ← done.output, Machine.output, journal,
        List.reverse_cons, List.filterMap_append]
      exact congrArg (· ++ _) began.output
    · rw [← done.diagnostics, Machine.diagnostics, journal, List.reverse_cons,
        List.filterMap_append]
      exact (List.append_nil _).trans began.diagnostics

end

/-- The strings of a line can stand in quotes. -/
lemma quotable (line : Line) : Phrase.Quotable line.phrase.text := by
  intro c mem
  cases line with
  | declare name content ok =>
    simp only [phrase, List.mem_append] at mem
    obtain (mem | mem) | mem := mem
    · exact name.quotable c mem
    · revert c
      exact List.forall_iff_forall_mem.1 (by decide)
    · exact ok.quotable c mem
  | print name =>
    simp only [phrase, Piece.source, List.cons_append, List.mem_cons, List.mem_append,
      List.not_mem_nil, or_false] at mem
    obtain rfl | rfl | mem | rfl := mem
    · decide
    · decide
    · exact name.quotable c mem
    · decide

/-- The nodes of the script as they are loaded. -/
def layout (lines : List Line) : List Node :=
  (lines.map phrase).flatMap Phrase.nodes

/-- When the script is loaded, nothing can be filled in. -/
lemma Stage.start (visited : Visited m) (running : m.interrupted = false)
    (nodes : m.nodes id = (layout lines).map (Node.substitute m.symbols id))
    (undeclared : ∀ line ∈ lines, m.symbols.variableIn line.name.text .everywhere = none) :
    Stage id lines (fun _ => none) m where
  visited := visited
  running := running
  length := by rw [nodes, List.length_map, layout, Phrase.length_nodes, List.length_map]
  word k line hk := by
    have opening : '[' ∉ line.phrase.word.name.toList := by cases line.phrase.word <;> decide
    rw [nodes, List.getElem?_map, layout, (Phrase.getElem?_nodes _ k).1, List.getElem?_map, hk]
    exact congrArg some (Node.substitute_chars (Piece.legible_chars opening) rfl)
  string k line hk := by
    rw [nodes, List.getElem?_map, layout, (Phrase.getElem?_nodes _ k).2, List.getElem?_map, hk]
    refine ⟨_, rfl, ?_, ?_, ?_⟩
    · exact congrArg Shape.kind (Node.toShape_substitute _ _ _)
    · exact congrArg Shape.parent (Node.toShape_substitute _ _ _)
    · cases line with
      | declare name content ok =>
        rw [Node.substitute_chars (legible_declare name ok) rfl]
        exact ⟨rfl, rfl⟩
      | print name =>
        have absent : m.symbols.variableIn name.text .everywhere = none :=
          undeclared _ (List.mem_of_getElem? hk)
        let hole : Node :=
          { kind := .string, parent := none, value := (Piece.hole name.text).source }
        have same := @substitute_hole id name hole m.symbols rfl rfl
        rw [absent] at same
        exact same
  texts line mem := by
    rw [undeclared line mem]
    rfl
  contents _ _ e := nomatch e

/-- The source is read as the layout of its lines. -/
lemma ofSource_layout {source : Text}
    (written : Phrase.linesOf source = lines.map fun line => line.phrase.write) :
    Nodes.ofSource source = layout lines := by
  refine Phrase.ofSource_lines (by rw [written, List.map_map]; rfl) fun p mem => ?_
  obtain ⟨line, -, rfl⟩ := List.mem_map.1 mem
  exact line.quotable

/-- What is known when the script is loaded and nothing was carried out. -/
lemma Done.start {host : Host} {name source : Text} {store : Store} (visited : Visited m)
    (running : m.interrupted = false)
    (written : Phrase.linesOf source = lines.map fun line => line.phrase.write)
    (added : m.store.insert? name (Nodes.ofSource source) = some (id, store))
    (undeclared : ∀ line ∈ lines, m.symbols.variableIn line.name.text .everywhere = none) :
    Done id lines m 0
      (({ m with store }.log (.loaded name)).substituteAll.setCurrent (some id)) := by
  let loaded := { m with store }.log (.loaded name)
  have leads : Leads host m loaded.substituteAll := .loaded added
  have int : Integrity loaded := (visited.integrity.load added).congr rfl rfl
  have nodes : (loaded.substituteAll.setCurrent (some id)).nodes id =
      (layout lines).map (Node.substitute m.symbols id) := by
    have own : loaded.nodes id = layout lines := by
      obtain ⟨-, rfl, rfl⟩ := Store.insert_inv added
      refine (m.store.nodes_snoc _ m.store.size).trans ?_
      rw [if_pos rfl, ofSource_layout written]
    refine (int.numbered.nodes_substituteAll id).trans ?_
    rw [own]
    rfl
  have unchanged := Machine.Unchanged.log { m with store } (.loaded name) rfl rfl
  exact ⟨.start ((visited.leads leads).current _) running nodes undeclared,
    unchanged.output.trans (List.append_nil _).symm, unchanged.diagnostics⟩

end Line

/-- A script of declarations and prints is a plain variable store. Its variables must be new and the
run not interrupted; in a machine in which nothing was run yet this is so. The run succeeds, reports
nothing, and prints for each print the content that was declared last before it, or the placeholder
if there is none. -/
theorem declarations_store {host : Host} {m : Machine} (h : Reachable m)
    (running : m.interrupted = false) {name source : Text} {lines : List Line}
    (written : Phrase.linesOf source = lines.map fun line => line.phrase.write)
    (new : m.store.idOf? name = none)
    (undeclared : ∀ line ∈ lines, m.symbols.variableIn line.name.text .everywhere = none) :
    let run := m.runSource host name source
    (∃ id, run.1 = .ok id) ∧ run.2.diagnostics = m.diagnostics ∧
      run.2.output = m.output ++ Line.printed (fun _ => none) lines := by
  intro run
  let store : Store := { m.store with scripts := m.store.scripts ++
    [{ id := m.store.size, name, nodes := Nodes.ofSource source }] }
  have added : m.store.insert? name (Nodes.ofSource source) = some (m.store.size, store) := by
    rw [Store.insert?, new]
    rfl
  have statement : ∀ ⦃k m' word⦄, (lines.map fun line => line.phrase.word)[k]? = some word →
      Line.Done m.store.size lines m k m' → ∃ value m'',
        Gives host (.ofTask host (.statement ⟨m.store.size, 2 * k⟩) m') (.ok value m'') ∧
          Line.Done m.store.size lines m (k + 1) m'' := by
    intro k m' word hk done
    rw [List.getElem?_map, Option.map_eq_some_iff] at hk
    obtain ⟨line, hk, -⟩ := hk
    exact done.next hk
  obtain ⟨m', gives, done⟩ := Machine.Recites.gives_script lines.length (List.length_map _)
    (fun k m' done => ⟨done.stage.recites, done.stage.running⟩) statement
    (@Line.Done.start _ lines m host name source store h.visited running written added undeclared)
  obtain ⟨id, ran⟩ := h.runSource_of_gives (gives_source added gives)
  have result : run = (.ok id, m'.setCurrent store.current) := ran
  have output := done.output
  rw [List.take_length] at output
  rw [result]
  exact ⟨⟨id, rfl⟩, done.diagnostics, output⟩

/-- A variable is printed before it is declared, after it is declared, and after it is declared
again; a second one is printed in between. -/
theorem declarations_store_twice :
    let x : VariableName :=
      ⟨"x".toList, by decide, by decide, by decide, by decide, by decide, by decide⟩
    let y : VariableName :=
      ⟨"y".toList, by decide, by decide, by decide, by decide, by decide, by decide⟩
    let lines : List Line :=
      [.print x, .declare x "y".toList ⟨by decide, by decide, by decide, by decide⟩, .print x,
        .declare y "x".toList ⟨by decide, by decide, by decide, by decide⟩, .print y,
        .declare x "2".toList ⟨by decide, by decide, by decide, by decide⟩, .print x]
    let source := ['\n'].intercalate (lines.map fun line => line.phrase.write)
    let host : Host := { loader := .ofList [] }
    (({} : Machine).runSource host "main".toList source).2.output =
      ["[#x]".toList, "y".toList, "x".toList, "2".toList] := by
  intro x y lines source host
  have undeclared : ∀ line ∈ lines,
      ({} : Machine).symbols.variableIn line.name.text .everywhere = none := by
    intro line _
    rfl
  have written : Phrase.linesOf source = lines.map fun line => line.phrase.write := by decide
  exact (declarations_store .start rfl written rfl undeclared).2.2

end Sigil
