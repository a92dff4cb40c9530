import Sigil.ArrayText.Reader
import Sigil.Machine.Basic

/-!
# Statements

Before a statement is carried out it is read: its keyword and operands are looked up, and
everything that can be wrong with it is found out, without changing anything. What is left to do
is a `Statement`.
-/

namespace Sigil

/-- A statement that was found to be in order, with all it needs. -/
inductive Statement where
  /-- There is nothing to do. -/
  | nothing
  | print (line : Text)
  | declare (name text : Text)
  | define (f : Function)
  /-- Ends the function with a value. -/
  | give (value : Value)
  /-- Ends the function with the value of the statement that follows, whose keyword is `word`. -/
  | giveNext (word : Text)
  | call (f : Function) (args : List Text) (out : Option Text)
  /-- Runs a block if the condition holds. -/
  | branch (holds : Bool) (body : Nat)
  | compare (holds : Bool)
  /-- Changes an array variable. -/
  | edit (address : Address) (text : Text)
  | read (out text : Text)
  | load (name source : Text)
  | exportAll
  | native (code : Native) (source : Text) (out : Option Text)

namespace Machine

/-! ### Operands -/

/-- The index of an operand. -/
def operand (m : Machine) (site : Site) (kind : Kind) (nth : Nat) : Option Nat :=
  Nodes.operand (m.nodes site.script) site.index kind nth

/-- The text of an operand that must be there. -/
def require (m : Machine) (site : Site) (keyword : Keyword) (kind : Kind) (nth : Nat) :
    Except Error Text :=
  match m.operand site kind nth with
  | some index => .ok (m.textAt ⟨site.script, index⟩)
  | none => .error (.malformed keyword (.missingOperand kind nth))

/-- The name in the first block, to which a result is to be assigned. -/
def outName (m : Machine) (site : Site) : Option Text :=
  ((m.operand site .block 0).map fun index => Text.trim (m.textAt ⟨site.script, index⟩)).filter
    fun name => !name.isEmpty

/-- The variable that a name means at a statement. -/
def variableAt (m : Machine) (site : Site) (name : Text) : Except Error (Address × Text) :=
  match m.symbols.resolve name (m.scopeOf site) with
  | some (address, v) => .ok (address, v.text)
  | none => .error (.undefinedVariable name)

/-- The items of the array text that a variable holds. -/
def itemsOf (name text : Text) : Except Error (List Value) :=
  (ArrayText.parse text).mapError (.notAnArray name)

end Machine

namespace Statement

open Machine

/-- A declaration: a name and a text around the first `=`, neither of them blank. -/
def readDeclare (m : Machine) (site : Site) : Except Error Statement := do
  let text ← m.require site .declare .string 0
  match Text.cut ['='] text with
  | some (name, value) =>
    if (Text.trim name).isEmpty || (Text.trim value).isEmpty then
      .error (.malformed .declare (.invalidDeclaration text))
    else
      .ok (.declare (Text.trim name) (Text.trim value))
  | none => .error (.malformed .declare (.invalidDeclaration text))

/-- An operand of a function declaration. -/
def requirePart (m : Machine) (site : Site) (kind : Kind) (nth : Nat) (fault : Fault) :
    Except Error Nat :=
  match m.operand site kind nth with
  | some index => .ok index
  | none => .error (.malformed .func fault)

/-- A function declaration: name, parameters and body in this order. -/
def readFunc (m : Machine) (site : Site) : Except Error Statement := do
  let nameAt ← requirePart m site .block 0 .missingName
  let paramsAt ← requirePart m site .paren 0 .missingParameters
  let body ← requirePart m site .block 1 .missingBody
  if nameAt < paramsAt ∧ paramsAt < body then
    let name := Text.trim (m.textAt ⟨site.script, nameAt⟩)
    if name.isEmpty then
      .error (.malformed .func .emptyName)
    else
      let rawParams := m.textAt ⟨site.script, paramsAt⟩
      .ok (.define { name, rawParams, body, owner := site.script, params := Text.items rawParams })
  else
    .error (.malformed .func .partsOutOfOrder)

/-- A return: of the text that follows, or of what the statement that follows gives. -/
def readReturn (m : Machine) (site : Site) : Except Error Statement :=
  match (m.nodes site.script)[site.index + 1]? with
  | none => .error (.malformed .giveBack .nothingToReturn)
  | some node =>
    if node.kind = .keyword then .ok (.giveNext node.value) else .ok (.give (.text node.value))

/-- The name of the function that a call means: one leading `*` does not count. -/
def calledName (t : Text) : Text :=
  match Text.trim t with
  | '*' :: rest => Text.trim rest
  | name => name

/-- A call. -/
def readCall (m : Machine) (site : Site) : Except Error Statement := do
  let rawName ← m.require site .call .string 0
  let rawArgs ← m.require site .call .paren 0
  match m.symbols.function? (calledName rawName) with
  | none => .error (.undefinedFunction (calledName rawName))
  | some f =>
    let args := Text.items rawArgs
    if args.length = f.params.length then
      .ok (.call f args (m.outName site))
    else
      .error (.arityMismatch f.params.length args.length f.name)

/-- Whether a comparison holds between its two blocks. -/
def comparison (m : Machine) (site : Site) (keyword : Keyword)
    (test : Value → Value → Bool) : Except Error Bool := do
  let left ← m.require site keyword .block 0
  let right ← m.require site keyword .block 1
  return test (.text (Text.trim left)) (.text (Text.trim right))

/-- Whether the comparison at a site holds. -/
def holdsAt (m : Machine) (site : Site) : Except Error Bool :=
  match Keyword.ofText? (m.textAt site) with
  | some .eq => comparison m site .eq Value.same
  | some .op => comparison m site .op fun a b => !a.same b
  | some .lt => comparison m site .lt fun a b => a.compare b == some .lt
  | some .gt => comparison m site .gt fun a b => a.compare b == some .gt
  | _ => .error (.unknownKeyword (m.textAt site))

/-- The first comparison of a script that can decide a condition. -/
def condition? (m : Machine) (script : ScriptId) : Option Nat :=
  (m.nodes script).findIdx? fun node =>
    node.kind == .keyword && (Keyword.ofText? node.value).any Keyword.isCondition

/-- A conditional block. The condition is the first comparison of the current script. -/
def readIf (m : Machine) (site : Site) : Except Error Statement := do
  let label ← m.require site .branch .block 0
  match m.operand site .block 1 with
  | none => .error (.malformed .branch .missingBody)
  | some body =>
    let script := m.store.current.getD site.script
    match condition? m script with
    | none => .error (.malformed .branch (.noComparison (Text.trim label)))
    | some index => return .branch (← holdsAt m ⟨script, index⟩) body

/-- A change of an array variable. -/
def readEdit (m : Machine) (site : Site) (keyword : Keyword)
    (change : Text → List Value → List Value) : Except Error Statement := do
  let item ← m.require site keyword .string 0
  let name ← m.require site keyword .block 0
  let (address, text) ← m.variableAt site (Text.trim name)
  let items ← itemsOf (Text.trim name) text
  return .edit address (Value.serializeArray (change item items))

/-- Adds an item at the end. -/
def insertItem (item : Text) (items : List Value) : List Value :=
  items ++ [.text item]

/-- Takes the first item with this text out. -/
def removeItem (item : Text) (items : List Value) : List Value :=
  items.eraseP fun value => value.toText == item

/-- The item of an array text at an index, as the operands of a reading give them. -/
def readItem (name text : Text) (index : Option Text) : Except Error Text :=
  match index with
  | none => .error (.malformed .read .missingIndex)
  | some written =>
    match Numeral.index? written with
    | none => .error (.notANumber written)
    | some index => do
      let items ← itemsOf name text
      match items[index]? with
      | some item => .ok item.toText
      | none => .error (.indexOutOfBounds index items.length)

/-- What is read from the text of a variable. -/
def readText (mode : ReadMode) (name text : Text) (index : Option Text) : Except Error Text :=
  match mode with
  | .string => .ok text
  | .number =>
    match Double.ofText? text with
    | some x => .ok x.toText
    | none => .error (.notANumber text)
  | .array => readItem name text index

/-- The target of a reading: a name, or an index and a name. -/
def readTarget (t : Text) : Except Error (Option Text × Text) :=
  match Text.items t with
  | [out] => .ok (none, out)
  | [index, out] => .ok (some index, out)
  | _ => .error (.malformed .read .invalidTarget)

/-- A reading. -/
def readRead (m : Machine) (site : Site) : Except Error Statement := do
  let modeText ← m.require site .read .string 0
  let input ← m.require site .read .block 0
  let target ← m.require site .read .block 1
  match ReadMode.ofText? modeText with
  | none => .error (.malformed .read (.unknownReadMode (Text.trim modeText)))
  | some mode =>
    let (index, out) ← readTarget target
    let (_, text) ← m.variableAt site (Text.trim input)
    return .read out (← readText mode (Text.trim input) text index)

/-- An import. A script that is already loaded is not loaded again. -/
def readUsing (host : Host) (m : Machine) (site : Site) : Except Error Statement := do
  let name := Text.trim (← m.require site .usingFile .string 0)
  if name.isEmpty then
    .error (.malformed .usingFile .emptySourceName)
  else if (m.store.idOf? name).isSome then
    .ok .nothing
  else
    match host.loader name with
    | .ok source => .ok (.load name source)
    | .error failure => .error (.load name failure)

/-- A native call. -/
def readNative (host : Host) (m : Machine) (site : Site) : Except Error Statement := do
  let source ← m.require site .native .string 0
  match host.native with
  | some code => .ok (.native code source (m.outName site))
  | none => .error .nativeDisabled

/-- Reads the statement of a keyword. -/
def ofKeyword (host : Host) (m : Machine) (site : Site) : Keyword → Except Error Statement
  | .remark => .ok .nothing
  | .print => return .print (← m.require site .print .string 0)
  | .declare => readDeclare m site
  | .func => readFunc m site
  | .giveBack => readReturn m site
  | .call => readCall m site
  | .branch => readIf m site
  | .eq | .lt | .gt | .op => return .compare (← holdsAt m site)
  | .insert => readEdit m site .insert insertItem
  | .remove => readEdit m site .remove removeItem
  | .read => readRead m site
  | .usingFile => readUsing host m site
  | .exportAll => .ok .exportAll
  | .native => readNative host m site

/-- Reads the statement at a site. -/
def readAt (host : Host) (m : Machine) (site : Site) : Except Error Statement :=
  let word := m.textAt site
  match Keyword.ofText? word with
  | some keyword => ofKeyword host m site keyword
  | none => if Keyword.isTolerated word then .ok .nothing else .error (.unknownKeyword word)

end Statement

end Sigil
