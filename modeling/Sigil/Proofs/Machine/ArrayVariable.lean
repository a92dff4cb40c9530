import Mathlib.Tactic.Common
import Sigil.Proofs.ArrayText.Items
import Sigil.Proofs.Machine.Failure
import Sigil.Proofs.Machine.Isolation

/-!
# Array variables are lists of texts

A variable that holds an array text is changed by insertions and removals and asked for its items by
readings. Each of these statements reads the whole array text, and each change writes it anew. Seen
from outside the variable is a list of texts: `Edit.apply` is what a change does to this list, and
`Edited` are the machines that come about by changes from a machine in which the list is empty, with
anything else in between that leaves the variable alone. The array text of the list is what the
variable holds all the time (`Edited.holds`). What the next statement makes of it is said by
`HoldsList.eval_edit` and `HoldsList.eval_read`; `Edited.list_semantics` puts them together.
-/

namespace Sigil

/-! ### Texts by address -/

namespace Table

variable {t : Table} {name text : Text} {site : Scope} {address : Address} {v : Variable}

/-- What a name means has its text under its address. -/
lemma Ordered.textAt_of_resolve (ord : t.Ordered) (h : t.resolve name site = some (address, v)) :
    t.textAt address = some v.text := by
  have found := ord.lookup_eq (mem_variableList.1 (resolve_inv h).1)
  simp only at found
  simp [textAt, found, Symbol.asVariable]

/-- A text that is set at an address is found there. -/
lemma textAt_setText (h : t.textAt address = some text) (new : Text) :
    (t.setText address new).textAt address = some new := by
  have same : (fun s : Symbol => s.address == address) ∘ withText address new =
      fun s => s.address == address := by
    funext s
    simp
  have lookup : (t.setText address new).lookup address =
      (t.lookup address).map (withText address new) := by
    rw [Table.lookup, records_setText, List.find?_map, same]
    rfl
  obtain ⟨⟨a, w⟩, found, -⟩ := Option.map_eq_some_iff.1 h
  obtain ⟨s, hs, hv⟩ := Option.bind_eq_some_iff.1 found
  have e : a = address := by
    rw [← (lookup_inv hs).2]
    obtain ⟨a', w' | f⟩ := s <;> cases hv
    rfl
  rw [textAt, lookup, hs, Option.map_some, Option.bind_some, withText_asVariable, hv]
  simp [e]

/-- A new text does not change what a name means. -/
lemma resolve_setText (h : t.resolve name site = some (address, v)) (new : Text) :
    (t.setText address new).resolve name site = some (address, { v with text := new }) := by
  rw [resolve, Option.orElse_eq_orElse, Option.orElse_eq_or, Option.or_eq_some_iff] at h ⊢
  rcases h with h | ⟨none, h⟩
  · exact .inl (variableIn_setText new h)
  · refine .inr ⟨?_, variableIn_setText new h⟩
    have isOf : Symbol.isOf name site ∘ withText address new = Symbol.isOf name site :=
      funext fun s => isOf_withText address new name site s
    rw [variableIn_eq] at none ⊢
    rw [records_setText, ← List.map_reverse, List.find?_map, isOf]
    cases found : t.records.reverse.find? (Symbol.isOf name site) with
    | none => rfl
    | some s =>
      rw [found, Option.bind_some] at none
      simp [none]

end Table

/-! ### Lists and changes of lists -/

/-- A change of a list of texts. -/
inductive Edit where
  /-- The text comes last. -/
  | insert (item : Text)
  /-- The first such text is taken out, if there is one. -/
  | remove (item : Text)

namespace Edit

/-- The text that is inserted or removed. -/
def item : Edit → Text
  | insert item => item
  | remove item => item

/-- The statement that makes the change. -/
def keyword : Edit → Keyword
  | insert _ => .insert
  | remove _ => .remove

/-- The list after the change. -/
def apply (texts : List Text) : Edit → List Text
  | insert item => texts ++ [item]
  | remove item => texts.erase item

/-- What the statement does to the items of the array text, given its operand. -/
def change : Edit → Text → List Value → List Value
  | insert _ => Statement.insertItem
  | remove _ => Statement.removeItem

/-- What the statement does to array items is what the change does to their texts. -/
lemma change_texts (edit : Edit) (texts : List Text) :
    edit.change edit.item (texts.map .text) = (edit.apply texts).map .text := by
  cases edit with
  | insert item => simp [change, apply, Edit.item, Statement.insertItem]
  | remove item =>
    have same : (fun v : Value => v.toText == item) ∘ Value.text = (· == item) := rfl
    rw [change, Edit.item, Statement.removeItem, List.eraseP_map, same, apply,
      ← List.erase_eq_eraseP']

end Edit

/-- The variable at an address holds the array text of a list of texts. -/
def Machine.HoldsList (m : Machine) (address : Address) (texts : List Text) : Prop :=
  m.symbols.textAt address = some (Value.serializeArray (texts.map .text))

/-- A name in a block means the variable at an address, as seen from a statement. -/
def Machine.Means (m : Machine) (site : Site) (keyword : Keyword) (address : Address) : Prop :=
  ∃ name v, m.require site keyword .block 0 = .ok name ∧
    m.symbols.resolve (Text.trim name) (m.scopeOf site) = some (address, v)

/-- The statement at a site makes a change to the variable at an address. -/
structure Edit.At (edit : Edit) (m : Machine) (site : Site) (address : Address) : Prop where
  keyword : Keyword.ofText? (m.textAt site) = some edit.keyword
  item : m.require site edit.keyword .string 0 = .ok edit.item
  means : m.Means site edit.keyword address

/-- The statement at a site reads the item with this index of the variable at an address, into the
variable of another name. -/
structure ReadsItem (m : Machine) (site : Site) (address : Address) (index : Nat) (out : Text) :
    Prop where
  keyword : Keyword.ofText? (m.textAt site) = some .read
  mode : ∃ mode, m.require site .read .string 0 = .ok mode ∧ ReadMode.ofText? mode = some .array
  means : m.Means site .read address
  target : ∃ target written, m.require site .read .block 1 = .ok target ∧
    Text.items target = [written, out] ∧ Numeral.index? written = some index

/-! ### Single statements -/

section
variable {host : Host} {m : Machine} {site : Site} {address : Address} {texts : List Text}

/-- A statement is carried out as its keyword says. -/
lemma Statement.eval_of_keyword {keyword : Keyword}
    (hk : Keyword.ofText? (m.textAt site) = some keyword) : ∃ behind, eval host site m =
      match ofKeyword host (m.beginning site) site keyword with
      | .ok s => s.perform (m.level host) behind site (m.beginning site)
      | .error e => .error (.failed e) (m.beginning site) := by
  have lt : site.index < (m.nodes site.script).length := by
    by_contra ge
    have none : m.textAt site = [] := by
      simp [Machine.textAt, List.getElem?_eq_none (Nat.le_of_not_lt ge)]
    rw [none] at hk
    cases hk
  have read : readAt host (m.beginning site) site =
      ofKeyword host (m.beginning site) site keyword := by
    have hk' : Keyword.ofText? ((m.beginning site).textAt site) = some keyword := hk
    simp only [readAt, hk']
  rw [← read]
  exact ⟨_, eval_eq lt⟩

/-- The items of the list are read from the variable. -/
lemma Machine.HoldsList.itemsOf (h : m.HoldsList address texts) (int : Integrity m)
    {name : Text} {v : Variable}
    (found : m.symbols.resolve name (m.scopeOf site) = some (address, v)) :
    m.variableAt site name = .ok (address, v.text) ∧
      Machine.itemsOf name v.text = .ok (texts.map .text) := by
  have text : v.text = Value.serializeArray (texts.map .text) :=
    Option.some.inj ((int.ordered.textAt_of_resolve found).symm.trans h)
  constructor
  · rw [variableAt, found]
  · rw [Machine.itemsOf, text, ArrayText.parse_texts]
    rfl

/-- The machine after a change of an array variable. -/
def Machine.edited (m : Machine) (site : Site) (address : Address) (text : Text) : Machine :=
  ((m.beginning site).update address text .follow).substituteAll

/-- A change is read with the list that it leads to. -/
lemma Machine.HoldsList.read_edit (h : m.HoldsList address texts) (int : Integrity m) {edit : Edit}
    (stated : edit.At m site address) :
    Statement.ofKeyword host (m.beginning site) site edit.keyword =
      .ok (.edit address (Value.serializeArray ((edit.apply texts).map .text))) := by
  obtain ⟨name, v, block, found⟩ := stated.means
  obtain ⟨variableAt, itemsOf⟩ := h.itemsOf int found
  have item' : (m.beginning site).require site edit.keyword .string 0 = .ok edit.item := stated.item
  have block' : (m.beginning site).require site edit.keyword .block 0 = .ok name := block
  have variableAt' : (m.beginning site).variableAt site (Text.trim name) = .ok (address, v.text) :=
    variableAt
  have edits : Statement.readEdit (m.beginning site) site edit.keyword edit.change =
      .ok (.edit address (Value.serializeArray (edit.change edit.item (texts.map .text)))) := by
    simp only [Statement.readEdit, Bind.bind, Except.bind, item', block', variableAt', itemsOf]
    rfl
  rw [← edit.change_texts]
  cases edit <;> exact edits

/-- A change is carried out on the list. -/
lemma Machine.HoldsList.eval_edit (h : m.HoldsList address texts) (int : Integrity m) {edit : Edit}
    (stated : edit.At m site address) : Statement.eval host site m =
      .ok none (m.edited site address (Value.serializeArray ((edit.apply texts).map .text))) := by
  obtain ⟨behind, e⟩ := @Statement.eval_of_keyword host m site _ stated.keyword
  rw [e, h.read_edit int stated]
  rfl

/-- The variable holds the new list, and nothing was reported. -/
lemma Machine.HoldsList.edited (h : m.HoldsList address texts) (site : Site) (texts' : List Text) :
    let m' := m.edited site address (Value.serializeArray (texts'.map .text))
    m'.HoldsList address texts' ∧ m'.diagnostics = m.diagnostics := by
  intro m'
  have symbols : m'.symbols =
      m.symbols.setText address (Value.serializeArray (texts'.map .text)) := by
    show ((m.beginning site).update address _ .follow).symbols = _
    rcases (m.beginning site).update_cases address _ .follow with ⟨none, -⟩ | ⟨old, -, e⟩
    · cases h.symm.trans none
    · rw [e, symbols_propagate]
      rfl
  have journal : m'.journal = (m.beginning site).journal :=
    congrArg (·.2.2.2) ((m.beginning site).frame_update address _ .follow)
  constructor
  · rw [HoldsList, symbols]
    exact Table.textAt_setText h _
  · rw [diagnostics, journal]
    exact (Machine.Unchanged.log m _ rfl rfl).diagnostics

/-- A reading finds the item of the list, or that there is none. -/
lemma Machine.HoldsList.read_item (h : m.HoldsList address texts) (int : Integrity m)
    {index : Nat} {out : Text} (stated : ReadsItem m site address index out) :
    Statement.ofKeyword host (m.beginning site) site .read =
      match texts[index]? with
      | some t => .ok (.read out t)
      | none => .error (.indexOutOfBounds index texts.length) := by
  obtain ⟨mode, modeAt, isArray⟩ := stated.mode
  obtain ⟨input, v, inputAt, found⟩ := stated.means
  obtain ⟨target, written, targetAt, parts, number⟩ := stated.target
  obtain ⟨variableAt, itemsOf⟩ := h.itemsOf int found
  have modeAt' : (m.beginning site).require site .read .string 0 = .ok mode := modeAt
  have inputAt' : (m.beginning site).require site .read .block 0 = .ok input := inputAt
  have targetAt' : (m.beginning site).require site .read .block 1 = .ok target := targetAt
  have variableAt' : (m.beginning site).variableAt site (Text.trim input) = .ok (address, v.text) :=
    variableAt
  have item : Statement.readText .array (Text.trim input) v.text (some written) =
      match texts[index]? with
      | some t => .ok t
      | none => .error (.indexOutOfBounds index texts.length) := by
    simp only [Statement.readText, Statement.readItem, number, Bind.bind, Except.bind, itemsOf,
      List.getElem?_map, List.length_map]
    cases texts[index]? <;> rfl
  have read : Statement.readRead (m.beginning site) site =
      match texts[index]? with
      | some t => .ok (.read out t)
      | none => .error (.indexOutOfBounds index texts.length) := by
    simp only [Statement.readRead, Bind.bind, Except.bind, modeAt', inputAt', targetAt', isArray,
      Statement.readTarget, parts, variableAt', item]
    cases texts[index]? <;> rfl
  exact read

/-- A change of a variable that a name means changes its text. -/
lemma Integrity.symbols_update (int : Integrity m) {name : Text} {scope : Scope} {v : Variable}
    (found : m.symbols.resolve name scope = some (address, v)) (text : Text) (p : Propagation) :
    (m.update address text p).symbols = m.symbols.setText address text := by
  have held := int.ordered.textAt_of_resolve found
  rcases m.update_cases address text p with ⟨none, -⟩ | ⟨old, -, e⟩
  · cases held.symm.trans none
  · rw [e, Machine.symbols_propagate]

/-- After an assignment, the name means a variable with this text. -/
lemma Integrity.resolve_assign (int : Integrity m) (site : Site) (name text : Text)
    (p : Propagation) :
    ((m.assign site name text p).symbols.resolve name (m.scopeOf site)).map (fun (_, v) => v.text) =
      some text := by
  rcases m.assign_cases site name text p with ⟨address, v, found, e⟩ | e
  · have symbols : (m.assign site name text p).symbols = m.symbols.setText address text := by
      rw [e]
      exact int.symbols_update found text p
    rw [symbols, Table.resolve_setText found]
    rfl
  · rw [e, Table.resolve]
    have bound := variableIn_bind int name text (m.scopeOf site)
    obtain ⟨⟨address, v⟩, found, e⟩ := Option.map_eq_some_iff.1 bound
    rw [found]
    exact congrArg some e

/-- Where a statement stands can be read off the outlines. -/
lemma Machine.scopeOf_eq {m' : Machine} (h : m'.store.outlines = m.store.outlines) (site : Site) :
    m'.scopeOf site = m.scopeOf site := by
  have parent : ∀ m : Machine, (m.nodes site.script)[site.index]?.bind (·.parent) =
      (m.shapes site.script)[site.index]?.bind (·.parent) := by
    intro m
    rw [shapes, List.getElem?_map]
    cases (m.nodes site.script)[site.index]? <;> rfl
  rw [scopeOf, scopeOf, parent, parent, shapes_eq h]

/-- What a reading leaves. -/
lemma Machine.HoldsList.eval_read (h : m.HoldsList address texts) (int : Integrity m)
    {index : Nat} {out : Text} (stated : ReadsItem m site address index out) :
    match texts[index]? with
    | some t => ∃ m', Statement.eval host site m = .ok (some (.text t)) m' ∧
        m'.diagnostics = m.diagnostics ∧
        (m'.symbols.resolve out (m'.scopeOf site)).map (fun (_, v) => v.text) = some t
    | none => Statement.eval host site m =
        .error (.failed (.indexOutOfBounds index texts.length)) (m.beginning site) := by
  obtain ⟨behind, e⟩ := @Statement.eval_of_keyword host m site _ stated.keyword
  rw [h.read_item int stated] at e
  cases found : texts[index]? with
  | none =>
    simp only [found] at e
    exact e
  | some t =>
    simp only [found] at e
    refine ⟨_, e, ?_, ?_⟩
    · have journal : ((m.beginning site).assign site out t .overwrite).journal =
          (m.beginning site).journal := congrArg (·.2.2.2) (frame_assign _ site out t .overwrite)
      rw [diagnostics, journal]
      exact (Machine.Unchanged.log m _ rfl rfl).diagnostics
    · rw [scopeOf_eq (outlines_assign _ site out t .overwrite)]
      exact (int.congr rfl rfl : Integrity (m.beginning site)).resolve_assign site out t .overwrite

end

/-! ### Sequences of changes -/

/-- The machines that come about by changes of the variable at an address. In between, anything may
happen that leaves its text alone. -/
inductive Edited (host : Host) (address : Address) (start : Machine) :
    List Edit → Machine → Prop where
  | start :
    Edited host address start [] start
  | between {edits m m'} :
    Edited host address start edits m →
    Visited m' →
    m'.symbols.textAt address = m.symbols.textAt address →
    Edited host address start edits m'
  | edit {edits edit m site} :
    Edited host address start edits m →
    edit.At m site address →
    Edited host address start (edits ++ [edit]) (after (Statement.eval host site) m)

section
variable {host : Host} {address : Address} {start m : Machine} {edits : List Edit}

/-- All the time, the variable holds the list that the changes lead to. -/
lemma Edited.holds (h : Edited host address start edits m) (visited : Visited start)
    (empty : start.HoldsList address []) :
    Visited m ∧ m.HoldsList address (edits.foldl Edit.apply []) := by
  induction h with
  | start => exact ⟨visited, empty⟩
  | between _ visited' same ih => exact ⟨visited', same.trans ih.2⟩
  | @edit edits edit m site _ stated ih =>
    obtain ⟨visited, holds⟩ := ih
    rw [after, holds.eval_edit visited.integrity stated, List.foldl_append]
    refine ⟨?_, (holds.edited site _).1⟩
    exact visited.leads ((Leads.began site).trans (.edited address _) : Leads host m _)

end

/-- A variable that holds an empty array text is a list of texts, whatever texts are put into it. Any
changes leave the array text of the list that they lead to. The next change succeeds without a
report; a reading gives the text at its index to the variable that it names, or, where the list is
too short, fails and leaves everything as it was. -/
theorem Edited.list_semantics {host : Host} {address : Address} {start m : Machine}
    {edits : List Edit} (h : Edited host address start edits m) (visited : Visited start)
    (empty : start.symbols.textAt address = some "[]".toList) :
    let texts := edits.foldl Edit.apply []
    m.symbols.textAt address = some (Value.serializeArray (texts.map .text)) ∧
    (∀ (site : Site) (edit : Edit), edit.At m site address →
      ∃ m', Statement.eval host site m = .ok none m' ∧ m'.diagnostics = m.diagnostics ∧
        m'.symbols.textAt address =
          some (Value.serializeArray ((edit.apply texts).map .text))) ∧
    ∀ (site : Site) (index : Nat) (out : Text), ReadsItem m site address index out →
      match texts[index]? with
      | some t => ∃ m', Statement.eval host site m = .ok (some (.text t)) m' ∧
          m'.diagnostics = m.diagnostics ∧
          (m'.symbols.resolve out (m'.scopeOf site)).map (fun (_, v) => v.text) = some t
      | none => Statement.eval host site m =
            .error (.failed (.indexOutOfBounds index texts.length)) (m.beginning site) ∧
          m.Unchanged (m.beginning site) := by
  intro texts
  obtain ⟨visited, holds⟩ := h.holds visited empty
  refine ⟨holds, fun site edit stated => ?_, fun site index out stated => ?_⟩
  · obtain ⟨holds', silent⟩ := holds.edited site (edit.apply texts)
    exact ⟨_, holds.eval_edit visited.integrity stated, silent, holds'⟩
  · have read := @Machine.HoldsList.eval_read host _ _ _ _ holds visited.integrity _ _ stated
    cases found : texts[index]? with
    | none =>
      rw [found] at read
      exact ⟨read, .log m _ rfl rfl⟩
    | some t =>
      rw [found] at read
      exact read

/-- An empty list has no first text to read; then a quotation mark goes into it, with which native
code has answered. -/
theorem list_semantics_quotation :
    let source := "@declare \"a = []\" @execjs \"\" \x7bq\x7d @func \x7bf\x7d () \x7b " ++
      "@insert \"[#q]\" \x7ba\x7d @read \"array\" \x7ba\x7d \x7b0, b\x7d \x7d"
    let quotation : Native := { invoke _ _ := { result := .ok ['"'] } }
    let host : Host := { loader := .ofList [], native := some quotation }
    let m := (({} : Machine).runSource host "main".toList source.toList).2
    Statement.eval host ⟨0, 12⟩ m =
        .error (.failed (.indexOutOfBounds 0 0)) (m.beginning ⟨0, 12⟩) ∧
      ∃ m', Statement.eval host ⟨0, 9⟩ m = .ok none m' ∧ m'.diagnostics = m.diagnostics ∧
        m'.symbols.textAt (.number 0) = some (Value.serializeArray [.text ['"']]) := by
  intro source quotation host m
  have visited : Visited m := (Reachable.source _ _ _ .start).visited
  obtain ⟨empty, insertion, reading⟩ :
      m.symbols.textAt (.number 0) = some "[]".toList ∧
      (Keyword.ofText? (m.textAt ⟨0, 9⟩) = some .insert ∧
        m.require ⟨0, 9⟩ .insert .string 0 = .ok ['"'] ∧
        m.require ⟨0, 9⟩ .insert .block 0 = .ok ['a'] ∧
        m.symbols.resolve ['a'] (m.scopeOf ⟨0, 9⟩) =
          some (.number 0, ⟨['a'], "[]".toList, .everywhere⟩)) ∧
      Keyword.ofText? (m.textAt ⟨0, 12⟩) = some .read ∧
        m.require ⟨0, 12⟩ .read .string 0 = .ok "array".toList ∧
        m.require ⟨0, 12⟩ .read .block 0 = .ok ['a'] ∧
        m.require ⟨0, 12⟩ .read .block 1 = .ok "0, b".toList ∧
        m.symbols.resolve ['a'] (m.scopeOf ⟨0, 12⟩) =
          some (.number 0, ⟨['a'], "[]".toList, .everywhere⟩) := by decide +kernel
  have stated : (Edit.insert ['"']).At m ⟨0, 9⟩ (.number 0) := by
    obtain ⟨keyword, item, name, means⟩ := insertion
    exact ⟨keyword, item, ['a'], _, name, means⟩
  have reads : ReadsItem m ⟨0, 12⟩ (.number 0) 0 ['b'] := by
    obtain ⟨keyword, mode, name, target, means⟩ := reading
    exact ⟨keyword, ⟨_, mode, rfl⟩, ⟨['a'], _, name, means⟩, _, ['0'], target, rfl, rfl⟩
  have fresh : Edited host (.number 0) m [] m := .start
  obtain ⟨-, edits, readings⟩ := fresh.list_semantics visited empty
  exact ⟨(readings _ _ _ reads).1, edits _ _ stated⟩

end Sigil
