import Mathlib.Tactic.Common
import Sigil.Proofs.Machine.Trace
import Sigil.Proofs.Node.Scanning
import Sigil.Proofs.Text.Parts

/-!
# Scripts of lines

Many scripts are made of plain lines: each line is a statement of one keyword and one string. Such a
line is a `Phrase`. A source with these lines, and possibly empty ones between them, has two nodes
for each phrase (`Phrase.ofSource_lines`).

A machine recites words if a script of it has this form, whatever its strings have become
(`Machine.Recites`). To follow a run of such a script it is enough to say what each of its
statements does to something that is known of the machine, and nothing needs to be said about how
the script is walked through (`Machine.Recites.gives_script`).
-/

namespace Sigil

/-- A statement of a keyword and one string. -/
structure Phrase where
  word : Keyword
  text : Text
deriving DecidableEq

namespace Phrase

/-- The statement as it is written. -/
def write (p : Phrase) : Text :=
  Scan.writeWord p.word.name.toList ++ Scan.writeString p.text

/-- The two nodes of the statement, outside all blocks. -/
def nodes (p : Phrase) : List Node :=
  [{ kind := .keyword, parent := none, value := p.word.name.toList },
   { kind := .string, parent := none, value := p.text }]

/-- The lines of a source that are not empty. -/
def linesOf (source : Text) : List Text :=
  (Text.split '\n' source).filter fun line => !line.isEmpty

/-- The text can stand in a string. -/
def Quotable (t : Text) : Prop :=
  ∀ c ∈ t, Scan.isBreak c = false ∧ c ≠ '"'

instance (t : Text) : Decidable (Quotable t) :=
  List.decidableBAll _ t

/-- The name of a keyword is of plain characters without spaces. -/
lemma plain_name (word : Keyword) : ∀ c ∈ word.name.toList, Scan.isPlain c = true ∧ c ≠ ' ' := by
  cases word <;> exact List.forall_iff_forall_mem.1 (by decide)

/-- A statement stands on one line. -/
lemma break_write {p : Phrase} (h : Quotable p.text) : '\n' ∉ p.write := by
  have word : '\n' ∉ p.word.name.toList := by
    intro mem
    have plain := (plain_name p.word _ mem).1
    revert plain
    decide
  have text : '\n' ∉ p.text := fun mem => Bool.noConfusion (h _ mem).1
  simp [write, Scan.writeWord, Scan.writeString, word, text]

/-- A phrase that is written is read as its two nodes. -/
lemma feed_write {p : Phrase} (h : Quotable p.text) (nodes : List Node) :
    Scan.feed ⟨nodes, .between, []⟩ p.write = ⟨nodes ++ p.nodes, .between, []⟩ := by
  rw [write, Scan.feed_append, Scan.feed_word (plain_name p.word), Scan.feed_string h,
    List.append_assoc]
  rfl

/-- Lines that are phrases, or empty, are read as the nodes of the phrases. -/
lemma feed_lines {lines : List Text} {ps : List Phrase}
    (h : (lines.filter fun line => !line.isEmpty) = ps.map write)
    (quotable : ∀ p ∈ ps, Quotable p.text) (before : List Node) :
    Scan.feed ⟨before, .between, []⟩ (['\n'].intercalate lines) =
      ⟨before ++ ps.flatMap nodes, .between, []⟩ := by
  have ended : ∀ nodes, Scan.feed ⟨nodes, .between, []⟩ ['\n'] = ⟨nodes, .between, []⟩ :=
    fun _ => rfl
  induction lines generalizing ps before with
  | nil =>
    obtain rfl : ps = [] := List.map_eq_nil_iff.1 h.symm
    simp [Scan.feed]
  | cons line lines ih =>
    -- the line is empty, or it is the first statement
    obtain ⟨first, rest, rfl, rest_eq, fed⟩ : ∃ first rest, ps = first ++ rest ∧
        (lines.filter fun line => !line.isEmpty) = rest.map write ∧
        Scan.feed ⟨before, .between, []⟩ line = ⟨before ++ first.flatMap nodes, .between, []⟩ := by
      cases line with
      | nil => exact ⟨[], ps, rfl, by simpa using h, by simp [Scan.feed]⟩
      | cons c line =>
        cases ps with
        | nil => simp at h
        | cons p ps =>
          obtain ⟨e, e'⟩ : c :: line = p.write ∧ _ = ps.map write := by simpa using h
          exact ⟨[p], ps, rfl, e',
            by simpa [e] using feed_write (quotable p List.mem_cons_self) before⟩
    have later := ih rest_eq fun p mem => quotable p (List.mem_append_right _ mem)
    cases lines with
    | nil =>
      obtain rfl : rest = [] := List.map_eq_nil_iff.1 rest_eq.symm
      simpa using fed
    | cons next lines =>
      rw [List.intercalate_cons_cons, Scan.feed_append, Scan.feed_append, fed, ended, later]
      simp

/-- The nodes of a source that is made of lines. -/
lemma ofSource_lines {source : Text} {ps : List Phrase} (h : linesOf source = ps.map write)
    (quotable : ∀ p ∈ ps, Quotable p.text) : Nodes.ofSource source = ps.flatMap nodes := by
  have fed := feed_lines h quotable []
  rw [Text.intercalate_split] at fed
  have settled : ∀ node ∈ ps.flatMap nodes, Node.settle node = node := by
    intro node mem
    obtain ⟨p, -, mem⟩ := List.mem_flatMap.1 mem
    simp only [nodes, List.mem_cons, List.not_mem_nil, or_false] at mem
    obtain rfl | rfl := mem <;> rfl
  have read : (Scan.feed {} source).nodes = ps.flatMap nodes := congrArg Scan.nodes fed
  rw [Nodes.ofSource, read]
  exact (List.map_congr_left settled).trans (List.map_id _)

/-- The two nodes of a phrase stand at twice its place. -/
lemma getElem?_nodes (ps : List Phrase) (k : Nat) :
    (ps.flatMap nodes)[2 * k]? = ps[k]?.bind (·.nodes[0]?) ∧
      (ps.flatMap nodes)[2 * k + 1]? = ps[k]?.bind (·.nodes[1]?) := by
  induction ps generalizing k with
  | nil => exact ⟨rfl, rfl⟩
  | cons p ps ih =>
    cases k with
    | zero => exact ⟨rfl, rfl⟩
    | succ k => exact ih k

/-- Every phrase has two nodes. -/
lemma length_nodes (ps : List Phrase) : (ps.flatMap nodes).length = 2 * ps.length := by
  induction ps with
  | nil => rfl
  | cons p ps ih =>
    rw [List.flatMap_cons, List.length_append, ih, List.length_cons]
    exact Nat.add_comm 2 _

end Phrase

/-- A script has these words as its keywords, outside all brackets, and each is followed by one
string. -/
structure Machine.Recites (m : Machine) (id : ScriptId) (words : List Keyword) : Prop where
  length : (m.nodes id).length = 2 * words.length
  word : ∀ ⦃k : Nat⦄ ⦃word : Keyword⦄, words[k]? = some word → ∃ node,
    (m.nodes id)[2 * k]? = some node ∧ node.kind = .keyword ∧ node.parent = none ∧
      node.value = word.name.toList
  string : ∀ ⦃k : Nat⦄ ⦃word : Keyword⦄, words[k]? = some word → ∃ node,
    (m.nodes id)[2 * k + 1]? = some node ∧ node.kind = .string ∧ node.parent = none

/-- A script of phrases recites their words. -/
lemma Phrase.recites {m : Machine} {id : ScriptId} {ps : List Phrase}
    (h : m.nodes id = ps.flatMap Phrase.nodes) : m.Recites id (ps.map Phrase.word) where
  length := by rw [h, length_nodes, List.length_map]
  word k word e := by
    rw [List.getElem?_map, Option.map_eq_some_iff] at e
    obtain ⟨p, hp, rfl⟩ := e
    rw [h, (getElem?_nodes ps k).1, hp]
    exact ⟨_, rfl, rfl, rfl, rfl⟩
  string k word e := by
    rw [List.getElem?_map, Option.map_eq_some_iff] at e
    obtain ⟨p, hp, rfl⟩ := e
    rw [h, (getElem?_nodes ps k).2, hp]
    exact ⟨_, rfl, rfl, rfl⟩

/-- A keyword is known by its name. -/
lemma Keyword.ofText?_name (word : Keyword) : ofText? word.name.toList = some word := by
  cases word <;> decide

namespace Machine.Recites

variable {host : Host} {m m' : Machine} {id : ScriptId} {words : List Keyword} {k : Nat}
  {word : Keyword}

/-- The first node of a phrase is a statement. -/
lemma walkedAt_word (h : m.Recites id words) (hk : words[k]? = some word) :
    m.walkedAt ⟨id, 2 * k⟩ = true := by
  obtain ⟨node, found, kind, outside, -⟩ := h.word hk
  rw [walkedAt, keywordAt, Nodes.withinBlock_of_no_parent found outside, found]
  simp [kind]

/-- The second node of a phrase is no statement. -/
lemma walkedAt_string (h : m.Recites id words) (hk : words[k]? = some word) :
    m.walkedAt ⟨id, 2 * k + 1⟩ = false := by
  obtain ⟨node, found, kind, -⟩ := h.string hk
  rw [walkedAt, keywordAt, found]
  simp [kind]

/-- The operand of a word is the string behind it. -/
lemma require_string (h : m.Recites id words) (hk : words[k]? = some word) (keyword : Keyword) :
    m.require ⟨id, 2 * k⟩ keyword .string 0 = .ok (m.textAt ⟨id, 2 * k + 1⟩) := by
  obtain ⟨node, found, -, outside, -⟩ := h.word hk
  obtain ⟨node', found', kind', outside'⟩ := h.string hk
  have behind : (m.nodes id).drop (2 * k + 1) = node' :: (m.nodes id).drop (2 * k + 1 + 1) := by
    obtain ⟨lt, e⟩ := List.getElem?_eq_some_iff.1 found'
    rw [List.drop_eq_getElem_cons lt, e]
  have operand : m.operand ⟨id, 2 * k⟩ .string 0 = some (2 * k + 1) := by
    simp [Machine.operand, Nodes.operand, found, outside, behind, Nodes.findOperand, outside',
      kind']
  rw [require, operand]

/-- A word is carried out by what it is read as. -/
lemma gives_statement (h : m.Recites id words) (hk : words[k]? = some word) {s : Statement}
    {ending : Ending} (read : Statement.ofKeyword host (m.beginning ⟨id, 2 * k⟩) ⟨id, 2 * k⟩ word =
      .ok s) (gives : Gives host (.perform host ⟨id, 2 * k⟩ s (m.beginning ⟨id, 2 * k⟩)) ending) :
    Gives host (.ofTask host (.statement ⟨id, 2 * k⟩) m) ending := by
  obtain ⟨node, found, -, -, value⟩ := h.word hk
  have text : (m.beginning ⟨id, 2 * k⟩).textAt ⟨id, 2 * k⟩ = word.name.toList := by
    show ((m.nodes id)[2 * k]?.map Node.value).getD [] = _
    rw [found, ← value]
    rfl
  have readAt : Statement.readAt host (m.beginning ⟨id, 2 * k⟩) ⟨id, 2 * k⟩ = .ok s := by
    simp only [Statement.readAt, text, Keyword.ofText?_name, read]
  rw [Course.ofTask_of_read readAt]
  exact gives

/-- A print prints its string. -/
lemma gives_print (h : m.Recites id words) (hk : words[k]? = some .print) :
    Gives host (.ofTask host (.statement ⟨id, 2 * k⟩) m)
      (.ok none ((m.beginning ⟨id, 2 * k⟩).log (.printed (m.textAt ⟨id, 2 * k + 1⟩)))) := by
  have require : (m.beginning ⟨id, 2 * k⟩).require ⟨id, 2 * k⟩ .print .string 0 =
      .ok (m.textAt ⟨id, 2 * k + 1⟩) := h.require_string hk .print
  have read : Statement.ofKeyword host (m.beginning ⟨id, 2 * k⟩) ⟨id, 2 * k⟩ .print =
      .ok (.print (m.textAt ⟨id, 2 * k + 1⟩)) := by
    rw [Statement.ofKeyword, require]
    rfl
  exact h.gives_statement hk read .done

/-- One word and its string, and then what is left. -/
lemma gives_each (h : m.Recites id words) (hk : words[k]? = some word)
    (running : m.interrupted = false) {value : Option Value} {rest : List Nat} {ending : Ending}
    (first : Gives host (.ofTask host (.statement ⟨id, 2 * k⟩) m) (.ok value m'))
    (h' : m'.Recites id words)
    (later : Gives host (.each id Machine.walkedAt Statement.walked rest m') ending) :
    Gives host (.each id Machine.walkedAt Statement.walked (2 * k :: (2 * k + 1) :: rest) m)
      ending := by
  have on : Statement.walked ⟨id, 2 * k⟩ (fun _ => .ok value m') m = .ok () m' := by
    simp [Statement.walked, Run.toAction, Meaning.walkStatement, Statement.guarded, running]
  rw [Course.each, if_pos (h.walkedAt_word hk), running, if_neg Bool.false_ne_true]
  refine .await first ?_
  rw [on]
  show Gives host (.each id Machine.walkedAt Statement.walked ((2 * k + 1) :: rest) m') ending
  rw [Course.each, if_neg (by simp [h'.walkedAt_string hk])]
  exact later

/-- If each statement does its part, what is known in the middle of a script is known in the end. -/
lemma gives_rest {known : Nat → Machine → Prop}
    (recites : ∀ ⦃k m⦄, known k m → m.Recites id words ∧ m.interrupted = false)
    (statement : ∀ ⦃k m word⦄, words[k]? = some word → known k m → ∃ value m',
      Gives host (.ofTask host (.statement ⟨id, 2 * k⟩) m) (.ok value m') ∧ known (k + 1) m')
    {left k : Nat} (length : words.length = k + left) (h : known k m) :
    ∃ m', Gives host (.each id Machine.walkedAt Statement.walked
      (List.range' (2 * k) (2 * left)) m) (.ok none m') ∧ known (k + left) m' := by
  induction left generalizing k m with
  | zero => exact ⟨m, .done, h⟩
  | succ left ih =>
    have lt : k < words.length := by omega
    have hk : words[k]? = some words[k] := List.getElem?_eq_getElem lt
    have next : k + 1 + left = k + (left + 1) := by omega
    obtain ⟨value, m', first, h'⟩ := statement hk h
    obtain ⟨m'', later, done⟩ := ih (length.trans next.symm) h'
    have indices : List.range' (2 * k) (2 * (left + 1)) =
        2 * k :: (2 * k + 1) :: List.range' (2 * (k + 1)) (2 * left) := by
      rw [Nat.mul_succ]
      rfl
    rw [indices, ← next]
    exact ⟨m'', (recites h).1.gives_each hk (recites h).2 first (recites h').1 later, done⟩

/-- What is known of the machine after so many statements is known in the end, if each statement
does its part. -/
lemma gives_script {known : Nat → Machine → Prop} (n : Nat) (length : words.length = n)
    (recites : ∀ ⦃k m⦄, known k m → m.Recites id words ∧ m.interrupted = false)
    (statement : ∀ ⦃k m word⦄, words[k]? = some word → known k m → ∃ value m',
      Gives host (.ofTask host (.statement ⟨id, 2 * k⟩) m) (.ok value m') ∧ known (k + 1) m')
    (start : known 0 m) :
    ∃ m', Gives host (.ofTask host (.script id) m) (.ok none m') ∧ known n m' := by
  obtain rfl := length
  have all : List.range (m.nodes id).length = List.range' (2 * 0) (2 * words.length) := by
    rw [(recites start).1.length, List.range_eq_range']
  show ∃ m', Gives host (.each id Machine.walkedAt Statement.walked
    (List.range (m.nodes id).length) m) (.ok none m') ∧ _
  rw [all]
  have whole := gives_rest recites statement (Nat.zero_add _).symm start
  rwa [Nat.zero_add] at whole

end Machine.Recites

/-- A source is run by running its script. -/
lemma gives_source {host : Host} {m m' : Machine} {name source : Text} {id : ScriptId}
    {store : Store} {value : Option Value}
    (new : m.store.insert? name (Nodes.ofSource source) = some (id, store))
    (script : Gives host (.ofTask host (.script id)
      (({ m with store }.log (.loaded name)).substituteAll.setCurrent (some id))) (.ok value m')) :
    Gives host (.ofTask host (.source name source) m)
      (.ok value (m'.setCurrent store.current)) := by
  have course : Course.ofTask host (.source name source) m =
      .await (.script id) (({ m with store }.log (.loaded name)).substituteAll.setCurrent (some id))
        fun ending => .done (ending.leaving (·.setCurrent store.current)) := by
    simp only [Course.ofTask, new]
    rfl
  rw [course]
  exact .await script .done

/-- What a source gives is what the host gets. -/
lemma Reachable.runSource_of_gives {host : Host} {m m' : Machine} (h : Reachable m)
    {name source : Text} {value : Option Value}
    (gives : Gives host (.ofTask host (.source name source) m) (.ok value m')) :
    ∃ id, m.runSource host name source = (.ok id, m') := by
  obtain ⟨trace, traced⟩ := gives.traces
  have same := h.ending_eq traced
  generalize m.runSource host name source = run at same
  obtain ⟨result, m''⟩ := run
  cases result with
  | error e => cases same
  | ok id =>
    cases same
    exact ⟨id, rfl⟩

end Sigil
