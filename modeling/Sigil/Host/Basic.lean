import Sigil.Error

/-!
# The host

What a script cannot do by itself it asks of its host: source texts by name, and code that is not
part of the script language. Both are given as functions, so a run depends on nothing else.
-/

namespace Sigil

/-- Finds source texts by name. -/
abbrev Loader := Text → Except LoadFailure Text

/-- The answer to a native call, which may also ask for the run to be interrupted. -/
structure Reply where
  result : Except Text Text
  interrupts : Bool := false

/-- Code outside the script language. What it answers may depend on the texts of all calls before.
-/
structure Native where
  invoke : (earlier : List Text) → (source : Text) → Reply

/-- How deeply calls and imports may be nested unless the host says otherwise. -/
def defaultDepthLimit : Nat := 256

/-- The host of a run. -/
structure Host where
  loader : Loader
  native : Option Native := none
  /-- How deeply calls and imports may be nested. -/
  depthLimit : Nat := defaultDepthLimit

namespace Loader

/-- A loader for a fixed list of sources. -/
def ofList (sources : List (Text × Text)) : Loader := fun name =>
  match sources.lookup name with
  | some source => .ok source
  | none => .error .notFound

end Loader

/-- A prepared answer to a native call. -/
structure PreparedReply where
  /-- The result; without one, the call answers with the text it was given. -/
  result : Option (Except Text Text) := none
  interrupts : Bool := false

/-- Native code that gives prepared answers in order, and its input when none is left. -/
def Native.prepared (replies : List PreparedReply) : Native where
  invoke earlier source :=
    let reply := replies[earlier.length]?.getD {}
    { result := reply.result.getD (.ok source), interrupts := reply.interrupts }

end Sigil
