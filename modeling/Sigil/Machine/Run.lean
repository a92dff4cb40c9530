import Sigil.Machine.Statement
import Sigil.Node.Scan

/-!
# Running scripts

What a script does is put together from its nodes, from the last one to the first: the meaning of
the nodes from some index on is given by the node there and the meaning of the nodes behind it. A
statement can run the statement that follows it, or those in a block behind it, so this covers all
it can reach within its script. Calls and imports start over in another place, but one level
deeper, and the number of levels is limited. So every run ends.
-/

namespace Sigil

/-- What cuts a statement short: an error, or the end of a function with a value. -/
inductive Signal where
  | failed (error : Error)
  | returned (value : Value)
deriving DecidableEq

/-- An activity inside a function, which may end it. -/
abbrev Action := EStateM Signal Machine

/-- An activity on its own, which can only succeed or fail. -/
abbrev Run := EStateM Error Machine

namespace Run

/-- Uses an activity inside a function. -/
def toAction {α : Type} (run : Run α) : Action α := fun m =>
  match run m with
  | .ok a m => .ok a m
  | .error e m => .error (.failed e) m

/-- Makes a script current during an activity. -/
def within {ε α : Type} (script : ScriptId) (act : EStateM ε Machine α) : EStateM ε Machine α :=
  fun m =>
    match act (m.setCurrent (some script)) with
    | .ok a after => .ok a (after.setCurrent m.store.current)
    | .error e after => .error e (after.setCurrent m.store.current)

/-- Nests an activity one level deeper. -/
def nested {α : Type} (run : Run α) : Run α := fun m =>
  match run { m with depth := m.depth + 1 } with
  | .ok a m => .ok a { m with depth := m.depth - 1 }
  | .error e m => .error e { m with depth := m.depth - 1 }

/-- Refuses to go deeper. -/
def refuse {α : Type} (host : Host) : Run α := fun m =>
  .error (.tooDeep m.depth host.depthLimit) m

end Run

/-- What statements can start one level deeper: a call of a function with arguments, and the run
of a source under a name. -/
structure Level where
  call : Function → List Text → Run (Option Value)
  load : Text → Text → Run ScriptId

/-- What the nodes of a script from some index on do. -/
structure Meaning where
  /-- Carries out the statement at the first of these nodes. -/
  statement : Action (Option Value)
  /-- Runs the statements written directly in a block, in order. -/
  block : Nat → Action Unit
  /-- Runs the statements outside all blocks, in order. -/
  walk : Run Unit

namespace Statement

/-- Changes the machine and gives a result. -/
def effect (change : Machine → Machine) (result : Option Value) : Action (Option Value) := fun m =>
  .ok result (change m)

/-- Calls native code and stores its answer. -/
def performNative (code : Native) (source : Text) (out : Option Text) (site : Site) :
    Action (Option Value) := fun m =>
  let reply := code.invoke m.nativeSources source
  let m := m.logNative source reply
  match reply.result with
  | .ok text => effect (·.assignResult site out (some (.text text))) (some (.text text)) m
  | .error reason => .error (.failed (.nativeFailed reason)) m

/-- Ends the function with the value of the statement that follows. -/
def giveResult (word : Text) : Option Value → Action (Option Value)
  | some value => throw (.returned value)
  | none => throw (.failed (.malformed .giveBack (.noValue word)))

/-- Carries out a statement that is in order; `behind` is what the nodes behind it do. -/
def perform (level : Level) (behind : Meaning) (site : Site) : Statement → Action (Option Value)
  | .nothing => pure none
  | .print line => effect (·.log (.printed line)) none
  | .declare name text => effect (fun m => m.bind name text (m.scopeOf site)) none
  | .define f => effect (·.define f) none
  | .give value => throw (.returned value)
  | .giveNext word => behind.statement >>= giveResult word
  | .call f args out => do
    let result ← (level.call f args).toAction
    effect (·.assignResult site out result) result
  | .branch true body => do
    behind.block body
    return some (.bool true)
  | .branch false _ => pure (some (.bool false))
  | .compare holds => pure (some (.bool holds))
  | .edit address text => effect (fun m => (m.update address text .follow).substituteAll) none
  | .read out text => effect (·.assign site out text .overwrite) (some (.text text))
  | .load name source => do
    let _ ← (level.load name source).toAction
    return none
  | .exportAll => effect (·.exportAll site) none
  | .native code source out => performNative code source out site

/-- Reads and carries out the statement at a site. -/
def evalAt (host : Host) (level : Level) (behind : Meaning) (site : Site) :
    Action (Option Value) := fun m =>
  let m := m.log (.began site m.store.current m.depth)
  match readAt host m site with
  | .ok statement => perform level behind site statement m
  | .error e => .error (.failed e) m

/-- Runs a statement of a block or script: not after an interrupt, and reporting it if it fails
for a recoverable cause. -/
def guarded (site : Site) (act : Action (Option Value)) : Action Unit := fun m =>
  if m.interrupted then
    .error (.failed .interrupted) m
  else
    match act m with
    | .ok _ m => .ok () m
    | .error (.returned value) m => .error (.returned value) m
    | .error (.failed e) m =>
      if e.isRecoverable then .ok () (m.report site e) else .error (.failed e) m

end Statement

namespace Meaning

/-- Behind the last node there is nothing to do. -/
def nil : Meaning where
  statement := throw (.failed (.unknownKeyword []))
  block _ := pure ()
  walk := pure ()

/-- Runs a statement outside all functions, where a return is reported. -/
def walkStatement (site : Site) (act : Action (Option Value)) : Run Unit := fun m =>
  match Statement.guarded site act m with
  | .ok _ m => .ok () m
  | .error (.returned _) m => .ok () (m.report site .returnOutsideFunction)
  | .error (.failed e) m => .error e m

/-- The meaning of a node and of those behind it. -/
def cons (host : Host) (level : Level) (site : Site) (shape : Shape) (behind : Meaning) :
    Meaning where
  statement := Statement.evalAt host level behind site
  block bracket :=
    if shape.kind = .keyword ∧ shape.parent = some bracket then do
      Statement.guarded site (Statement.evalAt host level behind site)
      behind.block bracket
    else
      behind.block bracket
  walk := fun m =>
    if shape.kind = .keyword ∧ Nodes.withinBlock (m.nodes site.script) site.index = false then
      (walkStatement site (Statement.evalAt host level behind site) >>= fun _ => behind.walk) m
    else
      behind.walk m

/-- The meaning of the nodes of a script from an index on. -/
def ofShapes (host : Host) (level : Level) (script : ScriptId) : Nat → List Shape → Meaning
  | _, [] => nil
  | index, shape :: behind =>
    cons host level ⟨script, index⟩ shape (ofShapes host level script (index + 1) behind)

/-- The meaning of a whole script as it is loaded. -/
def ofScript (host : Host) (level : Level) (script : ScriptId) (m : Machine) : Meaning :=
  ofShapes host level script 0 ((m.nodes script).map Node.toShape)

end Meaning

namespace Run

/-- Runs the statements of a loaded script that are outside all blocks. -/
def script (host : Host) (level : Level) (id : ScriptId) : Run Unit :=
  within id fun m => (Meaning.ofScript host level id m).walk m

/-- Loads a source under a name and runs it. -/
def source (host : Host) (level : Level) (name source : Text) : Run ScriptId := fun m =>
  match m.store.insert? name (Nodes.ofSource source) with
  | none => .error (.duplicateScript name) m
  | some (id, store) =>
    match script host level id ({ m with store }.log (.loaded name)).substituteAll with
    | .ok _ m => .ok id m
    | .error e m => .error e m

/-- Runs the block of a function, giving the value with which it ends. -/
def function (host : Host) (level : Level) (f : Function) (args : List Text) :
    Run (Option Value) := fun m =>
  let body : Action Unit := within f.owner fun m =>
    (Meaning.ofScript host level f.owner m).block f.body m
  match body (m.bindArguments f args) with
  | .ok _ m => .ok none m
  | .error (.returned value) m => .ok (some value) m
  | .error (.failed e) m => .error e m

end Run

/-- What can be started with so many levels left. -/
def Level.ofLeft (host : Host) : (left : Nat) → Level
  | 0 =>
    { call _ _ := Run.refuse host
      load _ _ := Run.refuse host }
  | left + 1 =>
    { call f args := Run.nested (Run.function host (ofLeft host left) f args)
      load name text := Run.nested (Run.source host (ofLeft host left) name text) }

/-- What can be started at the outset. -/
def Level.outermost (host : Host) : Level :=
  ofLeft host host.depthLimit

namespace Machine

/-- The outcome of an activity. -/
def run {α : Type} (m : Machine) (act : Run α) : Except Error α × Machine :=
  match act m with
  | .ok a m => (.ok a, m)
  | .error e m => (.error e, m)

/-- Loads a source under a name and runs it. -/
def runSource (host : Host) (m : Machine) (name source : Text) : Except Error ScriptId × Machine :=
  m.run (Run.source host (.outermost host) name source)

/-- Loads a source by its name and runs it. -/
def runFile (host : Host) (m : Machine) (name : Text) : Except Error ScriptId × Machine :=
  match host.loader name with
  | .ok source => m.runSource host name source
  | .error failure => (.error (.load name failure), m)

/-- A one-line description of the state. -/
def summary (host : Host) (m : Machine) : String :=
  s!"Interpreter \x7b symbols: {m.symbols.size}, modules: {m.store.size}, "
    ++ s!"native: {host.native.isSome}, call_depth: {m.depth} \x7d"

end Machine

end Sigil
