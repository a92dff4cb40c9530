import Sigil.Host.Basic
import Sigil.Node.Query
import Sigil.Script.Store

/-!
# The machine

The state of a run: the symbol table, the loaded scripts, how deeply calls are nested, whether an
interrupt was asked for, and a journal of everything that happened. What was printed and reported is
read off the journal.
-/

namespace Sigil

/-- The place of a node. -/
structure Site where
  script : ScriptId
  index : Nat
deriving DecidableEq, Repr

/-- A statement that failed and was skipped. -/
structure Diagnostic where
  /-- The name of the script. -/
  script : Text
  index : Nat
  error : Error
deriving DecidableEq

/-- What can happen during a run. -/
inductive Event where
  /-- A statement began, while this script was current and calls were nested this deeply. -/
  | began (site : Site) (current : Option ScriptId) (depth : Nat)
  | printed (line : Text)
  | reported (diagnostic : Diagnostic)
  /-- Native code was called with a text. -/
  | called (source : Text)
  /-- Native code asked for an interrupt. -/
  | interrupted
  /-- A script was loaded. -/
  | loaded (name : Text)
deriving DecidableEq

namespace Event

/-- The line that was printed. -/
def line? : Event → Option Text
  | .printed line => some line
  | _ => none

/-- The statement that was reported. -/
def diagnostic? : Event → Option Diagnostic
  | .reported diagnostic => some diagnostic
  | _ => none

/-- The text that native code was called with. -/
def nativeSource? : Event → Option Text
  | .called source => some source
  | _ => none

end Event

/-- The state of a run. -/
structure Machine where
  symbols : Table := {}
  store : Store := {}
  /-- How deeply calls and imports are nested. -/
  depth : Nat := 0
  /-- Whether an interrupt was asked for. -/
  interrupted : Bool := false
  /-- All events, the latest first. -/
  journal : List Event := []
deriving DecidableEq

/-- How a change of a variable reaches the nodes that show it. -/
inductive Propagation where
  /-- The old text is replaced inside the nodes. -/
  | follow
  /-- The whole text of the nodes is replaced. -/
  | overwrite
deriving DecidableEq, Repr

namespace Machine

/-- The printed lines in order. -/
def output (m : Machine) : List Text :=
  m.journal.reverse.filterMap Event.line?

/-- The reported statements in order. -/
def diagnostics (m : Machine) : List Diagnostic :=
  m.journal.reverse.filterMap Event.diagnostic?

/-- The texts given to native code in order. -/
def nativeSources (m : Machine) : List Text :=
  m.journal.reverse.filterMap Event.nativeSource?

/-- The text of a variable that was declared outside all brackets. -/
def globalText (m : Machine) (name : Text) : Option Text :=
  (m.symbols.variableIn name .everywhere).map fun (_, v) => v.text

/-- Adds an event to the journal. -/
def log (m : Machine) (event : Event) : Machine :=
  { m with journal := event :: m.journal }

/-- Asks for an interrupt, or takes the request back. -/
def setInterrupted (m : Machine) (interrupted : Bool) : Machine :=
  { m with interrupted }

/-- Notes a native call, and the interrupt that its answer may ask for. -/
def logNative (m : Machine) (source : Text) (reply : Reply) : Machine :=
  let m := m.log (.called source)
  if reply.interrupts then (m.setInterrupted true).log .interrupted else m

/-- Reports a statement that failed. -/
def report (m : Machine) (site : Site) (error : Error) : Machine :=
  let script := ((m.store.get? site.script).map Script.name).getD []
  m.log (.reported { script, index := site.index, error })

/-- Makes a script, or none, the current one. -/
def setCurrent (m : Machine) (current : Option ScriptId) : Machine :=
  { m with store := { m.store with current } }

/-! ### Nodes -/

/-- The nodes of a script. -/
def nodes (m : Machine) (script : ScriptId) : List Node :=
  m.store.nodes script

/-- The text of a node; a node that does not exist has none. -/
def textAt (m : Machine) (site : Site) : Text :=
  ((m.nodes site.script)[site.index]?.map Node.value).getD []

/-- The scope that a statement declares into. -/
def scopeOf (m : Machine) (site : Site) : Scope :=
  Scope.enclosing site.script ((m.nodes site.script)[site.index]?.bind (·.parent))

/-! ### Variables -/

/-- Fills in the placeholders of all scripts. -/
def substituteAll (m : Machine) : Machine :=
  { m with store := m.store.map (Script.substitute m.symbols) }

/-- Lets the nodes of all scripts follow the change of a variable from `old` to `new`. -/
def propagate (m : Machine) (address : Address) (old new : Text) : Propagation → Machine
  | .follow =>
    { m with store := m.store.map (Script.followChange address (Text.trim old) (Text.trim new)) }
  | .overwrite => { m with store := m.store.map (Script.overwriteShown address (Text.trim new)) }

/-- Changes the text of the variable at an address, and the nodes that show it. -/
def update (m : Machine) (address : Address) (text : Text) (propagation : Propagation) : Machine :=
  match m.symbols.textAt address with
  | none => m
  | some old =>
    { m with symbols := m.symbols.setText address text }.propagate address old text propagation

/-- Declares a variable in a scope, or changes the one that the scope already has. -/
def bind (m : Machine) (name text : Text) (scope : Scope) : Machine :=
  match m.symbols.variableIn name scope with
  | some (address, _) => (m.update address text .follow).substituteAll
  | none =>
    let (_, symbols) := m.symbols.register (.variable { name, text, scope }) none
    { m with symbols }.substituteAll

/-- Stores the result of a statement: in the variable that the name means there, or in a new one of
the statement's scope. -/
def assign (m : Machine) (site : Site) (name text : Text) (propagation : Propagation) : Machine :=
  match m.symbols.resolve name (m.scopeOf site) with
  | some (address, _) => (m.update address text propagation).substituteAll
  | none => m.bind name text (m.scopeOf site)

/-- Stores the result of a statement if it has one and a name was given for it. -/
def assignResult (m : Machine) (site : Site) : Option Text → Option Value → Machine
  | some name, some value => m.assign site name value.toText .follow
  | _, _ => m

/-- Registers a function under its name. -/
def define (m : Machine) (f : Function) : Machine :=
  { m with symbols := (m.symbols.register (.function f) (some f.name)).2 }

/-- Marks all addresses given out so far as exported by the current script. -/
def exportAll (m : Machine) (site : Site) : Machine :=
  let id := m.store.current.getD site.script
  { m with store := m.store.modify id fun s => { s with exports := some m.symbols.addresses } }

/-- Binds the arguments of a call, each under the function's and the parameter's name, inside the
function's block. -/
def bindArguments (m : Machine) (f : Function) (args : List Text) : Machine :=
  (f.params.zip args).foldl (fun m (param, arg) =>
    m.bind (f.name ++ ".args.".toList ++ param) arg (.bracket f.owner f.body)) m

end Machine

end Sigil
