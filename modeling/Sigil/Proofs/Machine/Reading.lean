import Mathlib.Tactic.Common
import Sigil.Machine.Statement
import Sigil.Proofs.Node.Forest

/-!
# What reading a statement finds out

A statement that was read is known to be in order: the function it declares has a body with its
parameters before it, the function it calls is in the table, the block it may run lies behind it.
`readAt_inv` says this for all statements at once, so that nothing else needs to look into how they
are read; `readAt_word` adds from which keyword a statement was read, so that only a return runs the
statement behind it (`readAt_giveNext`). Of a statement that could not be read, `readAt_error` says
for which causes.
-/

namespace Sigil.Statement

/-- A function as it is declared at a site: its body is a block of the same script, and a sibling
before it is the list of its parameters. -/
structure DeclaredAt (m : Machine) (site : Site) (f : Function) : Prop where
  owner : f.owner = site.script
  params : f.params = Text.items f.rawParams
  parts : ∃ i params body, (m.nodes site.script)[i]? = some params ∧
    (m.nodes site.script)[f.body]? = some body ∧ params.kind = .paren ∧ body.kind = .block ∧
    i < f.body ∧ params.parent = body.parent

/-- What is known of a statement that was read at a site. -/
def Known (host : Host) (m : Machine) (site : Site) : Statement → Prop
  | .define f => DeclaredAt m site f
  | .giveNext word => ∃ node, (m.nodes site.script)[site.index + 1]? = some node ∧
      node.kind = .keyword ∧ node.value = word
  | .call f _ _ => ∃ name, m.symbols.function? name = some f
  | .branch _ body => m.operand site .block 1 = some body
  | .load name source => m.store.idOf? name = none ∧ host.loader name = .ok source
  | _ => True

/-- The keyword that a statement is read from, where there is only one. -/
def word? : Statement → Option Keyword
  | .print _ => some .print
  | .declare _ _ => some .declare
  | .define _ => some .func
  | .give _ => some .giveBack
  | .giveNext _ => some .giveBack
  | .call _ _ _ => some .call
  | .branch _ _ => some .branch
  | .read _ _ => some .read
  | .load _ _ => some .usingFile
  | .exportAll => some .exportAll
  | .native _ _ _ => some .native
  | .nothing => none
  | .compare _ => none
  | .edit _ _ => none

/-- A computation that succeeds goes through its first part. -/
lemma bind_inv {ε α β : Type} {x : Except ε α} {f : α → Except ε β} {b : β}
    (h : (x >>= f) = .ok b) : ∃ a, x = .ok a ∧ f a = .ok b := by
  cases x with
  | error e => cases h
  | ok a => exact ⟨a, rfl, h⟩

variable {host : Host} {m : Machine} {site : Site} {s : Statement}

/-- A part of a function declaration is an operand. -/
lemma requirePart_inv {kind nth fault i} (h : requirePart m site kind nth fault = .ok i) :
    m.operand site kind nth = some i := by
  unfold requirePart at h
  split at h
  · cases h
    assumption
  · cases h

/-- A function declaration is read as a definition. -/
lemma readFunc_inv (h : readFunc m site = .ok s) : ∃ f, s = .define f ∧ DeclaredAt m site f := by
  obtain ⟨nameAt, _, h⟩ := bind_inv h
  obtain ⟨paramsAt, hp, h⟩ := bind_inv h
  obtain ⟨body, hb, h⟩ := bind_inv h
  split at h
  · rename_i lt
    dsimp only at h
    split at h
    · cases h
    · cases h
      obtain ⟨_, params, hw, hp, _, pp, kp⟩ := Nodes.operand_inv (requirePart_inv hp)
      obtain ⟨_, block, hw', hb, _, pb, kb⟩ := Nodes.operand_inv (requirePart_inv hb)
      cases hw.symm.trans hw'
      exact ⟨_, rfl, rfl, rfl, paramsAt, params, block, hp, hb, kp, kb, lt.2, pp.trans pb.symm⟩
  · cases h

/-- A return is read as one, and what it runs is the keyword behind it. -/
lemma readReturn_inv (h : readReturn m site = .ok s) :
    ∃ node, (m.nodes site.script)[site.index + 1]? = some node ∧
      (node.kind = .keyword ∧ s = .giveNext node.value ∨ s = .give (.text node.value)) := by
  unfold readReturn at h
  split at h
  · cases h
  · rename_i node hn
    refine ⟨node, hn, ?_⟩
    split at h
    · cases h
      exact .inl ⟨by assumption, rfl⟩
    · cases h
      exact .inr rfl

/-- A return can only be wrong where nothing follows. -/
lemma readReturn_error {e} (h : readReturn m site = .error e) :
    (m.nodes site.script)[site.index + 1]? = none := by
  unfold readReturn at h
  split at h
  · assumption
  · split at h <;> cases h

/-- A call is read as one of a function of the table. -/
lemma readCall_inv (h : readCall m site = .ok s) :
    ∃ f args out, s = .call f args out ∧ ∃ name, m.symbols.function? name = some f := by
  obtain ⟨rawName, _, h⟩ := bind_inv h
  obtain ⟨rawArgs, _, h⟩ := bind_inv h
  split at h
  · cases h
  · rename_i f hf
    dsimp only at h
    split at h
    · cases h
      exact ⟨f, _, _, rfl, _, hf⟩
    · cases h

/-- A conditional block is read as one, and the block is its second one. -/
lemma readIf_inv (h : readIf m site = .ok s) :
    ∃ holds body, s = .branch holds body ∧ m.operand site .block 1 = some body := by
  obtain ⟨label, _, h⟩ := bind_inv h
  split at h
  · cases h
  · rename_i body hb
    dsimp only at h
    split at h
    · cases h
    · obtain ⟨holds, _, h⟩ := bind_inv h
      cases h
      exact ⟨holds, body, rfl, hb⟩

/-- An import is read as nothing, or as the loading of a script that is not there yet. -/
lemma readUsing_inv (h : readUsing host m site = .ok s) :
    s = .nothing ∨ ∃ name source, s = .load name source ∧
      m.store.idOf? name = none ∧ host.loader name = .ok source := by
  obtain ⟨name, _, h⟩ := bind_inv h
  dsimp only at h
  split at h
  · cases h
  · split at h
    · cases h
      exact .inl rfl
    · rename_i new
      split at h
      · cases h
        exact .inr ⟨_, _, rfl, by simpa using new, by assumption⟩
      · cases h

/-- A declaration is read as one. -/
lemma readDeclare_inv (h : readDeclare m site = .ok s) : ∃ name text, s = .declare name text := by
  obtain ⟨text, _, h⟩ := bind_inv h
  split at h
  · split at h
    · cases h
    · cases h
      exact ⟨_, _, rfl⟩
  · cases h

/-- A change of an array is read as one. -/
lemma readEdit_inv {keyword change} (h : readEdit m site keyword change = .ok s) :
    ∃ address text, s = .edit address text := by
  obtain ⟨item, _, h⟩ := bind_inv h
  obtain ⟨name, _, h⟩ := bind_inv h
  obtain ⟨⟨address, text⟩, _, h⟩ := bind_inv h
  obtain ⟨items, _, h⟩ := bind_inv h
  cases h
  exact ⟨_, _, rfl⟩

/-- A reading is read as one. -/
lemma readRead_inv (h : readRead m site = .ok s) : ∃ out text, s = .read out text := by
  obtain ⟨modeText, _, h⟩ := bind_inv h
  obtain ⟨input, _, h⟩ := bind_inv h
  obtain ⟨target, _, h⟩ := bind_inv h
  split at h
  · cases h
  · obtain ⟨⟨index, out⟩, _, h⟩ := bind_inv h
    obtain ⟨⟨address, text⟩, _, h⟩ := bind_inv h
    obtain ⟨text, _, h⟩ := bind_inv h
    cases h
    exact ⟨_, _, rfl⟩

/-- A native call is read as one. -/
lemma readNative_inv (h : readNative host m site = .ok s) :
    ∃ code source out, s = .native code source out := by
  obtain ⟨source, _, h⟩ := bind_inv h
  split at h
  · cases h
    exact ⟨_, _, _, rfl⟩
  · cases h

/-- What the statement of each keyword is known to be. -/
lemma ofKeyword_inv {keyword} (h : ofKeyword host m site keyword = .ok s) :
    s.Known host m site ∧ ∀ word, s.word? = some word → keyword = word := by
  have compared : ∀ {x : Except Error Bool}, (x >>= fun b => pure (compare b)) = .ok s →
      s.Known host m site ∧ ∀ word, s.word? = some word → keyword = word := by
    intro x h
    obtain ⟨holds, _, h⟩ := bind_inv h
    cases h
    exact ⟨trivial, nofun⟩
  cases keyword with
  | remark =>
    cases h
    exact ⟨trivial, nofun⟩
  | print =>
    obtain ⟨line, _, h⟩ := bind_inv h
    cases h
    exact ⟨trivial, fun _ => Option.some.inj⟩
  | declare =>
    obtain ⟨_, _, rfl⟩ := readDeclare_inv h
    exact ⟨trivial, fun _ => Option.some.inj⟩
  | func =>
    obtain ⟨f, rfl, hf⟩ := readFunc_inv h
    exact ⟨hf, fun _ => Option.some.inj⟩
  | giveBack =>
    obtain ⟨node, hn, ⟨hk, rfl⟩ | rfl⟩ := readReturn_inv h
    · exact ⟨⟨node, hn, hk, rfl⟩, fun _ => Option.some.inj⟩
    · exact ⟨trivial, fun _ => Option.some.inj⟩
  | call =>
    obtain ⟨f, _, _, rfl, hf⟩ := readCall_inv h
    exact ⟨hf, fun _ => Option.some.inj⟩
  | branch =>
    obtain ⟨_, _, rfl, hb⟩ := readIf_inv h
    exact ⟨hb, fun _ => Option.some.inj⟩
  | eq => exact compared h
  | lt => exact compared h
  | gt => exact compared h
  | op => exact compared h
  | insert =>
    obtain ⟨_, _, rfl⟩ := readEdit_inv h
    exact ⟨trivial, nofun⟩
  | remove =>
    obtain ⟨_, _, rfl⟩ := readEdit_inv h
    exact ⟨trivial, nofun⟩
  | read =>
    obtain ⟨_, _, rfl⟩ := readRead_inv h
    exact ⟨trivial, fun _ => Option.some.inj⟩
  | usingFile =>
    obtain rfl | ⟨_, _, rfl, new⟩ := readUsing_inv h
    · exact ⟨trivial, nofun⟩
    · exact ⟨new, fun _ => Option.some.inj⟩
  | exportAll =>
    cases h
    exact ⟨trivial, fun _ => Option.some.inj⟩
  | native =>
    obtain ⟨_, _, _, rfl⟩ := readNative_inv h
    exact ⟨trivial, fun _ => Option.some.inj⟩

/-- A statement is read by its keyword, or is a word that does nothing. -/
lemma readAt_cases (h : readAt host m site = .ok s) :
    (∃ keyword, Keyword.ofText? (m.textAt site) = some keyword ∧
      ofKeyword host m site keyword = .ok s) ∨ s = .nothing := by
  unfold readAt at h
  dsimp only at h
  split at h
  · rename_i keyword hk
    exact .inl ⟨keyword, hk, h⟩
  · split at h
    · cases h
      exact .inr rfl
    · cases h

/-- What a statement that was read is known to be. -/
lemma readAt_inv (h : readAt host m site = .ok s) : s.Known host m site := by
  obtain ⟨_, _, h⟩ | rfl := readAt_cases h
  · exact (ofKeyword_inv h).1
  · trivial

/-- A statement is read from its keyword. -/
lemma readAt_word {keyword} (h : readAt host m site = .ok s) (word : s.word? = some keyword) :
    Keyword.ofText? (m.textAt site) = some keyword := by
  obtain ⟨own, hk, h⟩ | rfl := readAt_cases h
  · rw [hk, (ofKeyword_inv h).2 keyword word]
  · cases word

/-- Only a return runs the statement behind it. -/
lemma readAt_giveNext {word} (h : readAt host m site = .ok (.giveNext word)) :
    Keyword.ofText? (m.textAt site) = some .giveBack :=
  readAt_word h rfl

/-! ### What can be wrong with a statement -/

/-- The computation fails only for causes for which a statement is skipped. -/
def Mild {α : Type} (x : Except Error α) : Prop :=
  ∀ ⦃e⦄, x = .error e → e.isRecoverable = true

namespace Mild

variable {α β : Type}

/-- What is in order does not fail. -/
lemma ok (a : α) : Mild (.ok a) := by
  intro e he
  cases he

/-- An error for which a statement is skipped is mild. -/
lemma error {e : Error} (h : e.isRecoverable = true) : Mild (.error e : Except Error α) := by
  intro e' he
  cases he
  exact h

/-- Two steps fail mildly if each of them does. -/
lemma bind {x : Except Error α} {f : α → Except Error β} (hx : Mild x) (hf : ∀ a, Mild (f a)) :
    Mild (x >>= f) := by
  intro e he
  cases x with
  | error e' =>
    cases he
    exact hx rfl
  | ok a => exact hf a he

/-- A missing operand is a reason to skip the statement. -/
lemma require (keyword : Keyword) (kind : Kind) (nth : Nat) :
    Mild (m.require site keyword kind nth) := by
  unfold Machine.require
  split
  · exact ok _
  · exact error rfl

/-- So is a missing part of a function declaration. -/
lemma requirePart (kind : Kind) (nth : Nat) (fault : Fault) :
    Mild (requirePart m site kind nth fault) := by
  unfold Statement.requirePart
  split
  · exact ok _
  · exact error rfl

/-- So is a name that means no variable. -/
lemma variableAt (name : Text) : Mild (m.variableAt site name) := by
  unfold Machine.variableAt
  split
  · exact ok _
  · exact error rfl

/-- So is a text that is no list. -/
lemma itemsOf (name text : Text) : Mild (Machine.itemsOf name text) := by
  unfold Machine.itemsOf
  cases ArrayText.parse text with
  | ok items => exact ok _
  | error problem => exact error rfl

/-- A declaration is read, or skipped. -/
lemma readDeclare : Mild (readDeclare m site) := by
  refine bind (require _ _ _) fun text => ?_
  split
  · exact iteInduction (fun _ => error rfl) fun _ => ok _
  · exact error rfl

/-- A function is read, or skipped. -/
lemma readFunc : Mild (readFunc m site) := by
  refine bind (requirePart _ _ _) fun nameAt => bind (requirePart _ _ _) fun paramsAt => ?_
  refine bind (requirePart _ _ _) fun body => iteInduction (fun _ => ?_) fun _ => error rfl
  exact iteInduction (fun _ => error rfl) fun _ => ok _

/-- A return is read, or skipped. -/
lemma readReturn : Mild (readReturn m site) := by
  unfold Statement.readReturn
  split
  · exact error rfl
  · exact iteInduction (fun _ => ok _) fun _ => ok _

/-- A call is read, or skipped. -/
lemma readCall : Mild (readCall m site) := by
  refine bind (require _ _ _) fun rawName => bind (require _ _ _) fun rawArgs => ?_
  split
  · exact error rfl
  · exact iteInduction (fun _ => ok _) fun _ => error rfl

/-- A comparison is read, or skipped. -/
lemma comparison (keyword : Keyword) (test : Value → Value → Bool) :
    Mild (comparison m site keyword test) :=
  bind (require _ _ _) fun _ => bind (require _ _ _) fun _ => ok _

/-- What a condition compares is read, or the statement is skipped. -/
lemma holdsAt : Mild (holdsAt m site) := by
  unfold Statement.holdsAt
  split
  · exact comparison _ _
  · exact comparison _ _
  · exact comparison _ _
  · exact comparison _ _
  · exact error rfl

/-- A condition is read, or skipped. -/
lemma readIf : Mild (readIf m site) := by
  refine bind (require _ _ _) fun label => ?_
  split
  · exact error rfl
  · dsimp only
    split
    · exact error rfl
    · exact bind holdsAt fun _ => ok _

/-- A change of a list is read, or skipped. -/
lemma readEdit (keyword : Keyword) (change : Text → List Value → List Value) :
    Mild (readEdit m site keyword change) := by
  refine bind (require _ _ _) fun item => bind (require _ _ _) fun name => ?_
  exact bind (variableAt _) fun _ => bind (itemsOf _ _) fun _ => ok _

/-- An item that is not there is a reason to skip the statement. -/
lemma readItem (name text : Text) (index : Option Text) : Mild (readItem name text index) := by
  unfold Statement.readItem
  split
  · exact error rfl
  · split
    · exact error rfl
    · refine bind (itemsOf _ _) fun items => ?_
      split
      · exact ok _
      · exact error rfl

/-- In every mode, a text is found or the statement is skipped. -/
lemma readText (mode : ReadMode) (name text : Text) (index : Option Text) :
    Mild (readText mode name text index) := by
  cases mode with
  | string => exact ok _
  | number =>
    simp only [Statement.readText]
    split
    · exact ok _
    · exact error rfl
  | array => exact readItem name text index

/-- A target that is neither a name nor an index and a name is a reason to skip the statement. -/
lemma readTarget (t : Text) : Mild (readTarget t) := by
  unfold Statement.readTarget
  split
  · exact ok _
  · exact ok _
  · exact error rfl

/-- A reading statement is read, or skipped. -/
lemma readRead : Mild (readRead m site) := by
  refine bind (require _ _ _) fun modeText => bind (require _ _ _) fun input => ?_
  refine bind (require _ _ _) fun target => ?_
  split
  · exact error rfl
  · refine bind (readTarget _) fun _ => bind (variableAt _) fun _ => ?_
    exact bind (readText _ _ _ _) fun _ => ok _

/-- A call of native code is read, or skipped. -/
lemma readNative : Mild (readNative host m site) := by
  refine bind (require _ _ _) fun source => ?_
  split
  · exact ok _
  · exact error rfl

end Mild

/-- An import that cannot be read lacks its name or its source. -/
lemma readUsing_error {e} (h : readUsing host m site = .error e) :
    e.isRecoverable = true ∨ ∃ name failure, e = .load name failure := by
  unfold readUsing at h
  cases read : m.require site .usingFile .string 0 with
  | error e' =>
    rw [read] at h
    cases h
    exact .inl (Mild.require _ _ _ read)
  | ok text =>
    rw [read] at h
    simp only [Bind.bind, Except.bind] at h
    split at h
    · cases h
      exact .inl rfl
    · split at h
      · cases h
      · split at h
        · cases h
        · cases h
          exact .inr ⟨_, _, rfl⟩

/-- A statement that cannot be read is skipped, unless it imports what cannot be loaded. -/
lemma readAt_error {e} (h : readAt host m site = .error e) :
    e.isRecoverable = true ∨ ∃ name failure, e = .load name failure := by
  unfold readAt at h
  dsimp only at h
  split at h
  · rename_i keyword _
    cases keyword with
    | remark => cases h
    | print => exact .inl (Mild.bind (.require _ _ _) (fun _ => .ok _) h)
    | declare => exact .inl (Mild.readDeclare h)
    | func => exact .inl (Mild.readFunc h)
    | giveBack => exact .inl (Mild.readReturn h)
    | call => exact .inl (Mild.readCall h)
    | branch => exact .inl (Mild.readIf h)
    | eq => exact .inl (Mild.bind .holdsAt (fun _ => .ok _) h)
    | lt => exact .inl (Mild.bind .holdsAt (fun _ => .ok _) h)
    | gt => exact .inl (Mild.bind .holdsAt (fun _ => .ok _) h)
    | op => exact .inl (Mild.bind .holdsAt (fun _ => .ok _) h)
    | insert => exact .inl (Mild.readEdit _ _ h)
    | remove => exact .inl (Mild.readEdit _ _ h)
    | read => exact .inl (Mild.readRead h)
    | usingFile => exact readUsing_error h
    | exportAll => cases h
    | native => exact .inl (Mild.readNative h)
  · split at h
    · cases h
    · cases h
      exact .inl rfl

end Sigil.Statement
