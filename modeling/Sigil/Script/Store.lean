import Sigil.Node.Bound
import Sigil.Node.Placeholder

/-!
# Loaded scripts

Every script that was loaded is kept under its name, with its nodes as they are now. The store also
knows which script is being run.
-/

namespace Sigil

/-- A loaded script. -/
structure Script where
  id : ScriptId
  name : Text
  nodes : List Node
  /-- The addresses that the script has exported, if it has exported any. -/
  exports : Option (List Address) := none
deriving DecidableEq, Repr

namespace Script

/-- Changes every node in place. -/
def mapNodes (f : Node → Node) (s : Script) : Script :=
  { s with nodes := s.nodes.map f }

/-- Fills in the placeholders of all nodes. -/
def substitute (table : Table) (s : Script) : Script :=
  s.mapNodes (Node.substitute table s.id)

/-- Lets the nodes that show the variable at an address follow its change. -/
def followChange (address : Address) (old new : Text) (s : Script) : Script :=
  s.mapNodes fun node => if node.bound = some address then node.follow old new else node

/-- Replaces the text of the nodes that show the variable at an address. -/
def overwriteShown (address : Address) (new : Text) (s : Script) : Script :=
  s.mapNodes fun node => if node.bound = some address then node.overwrite new else node

end Script

/-- All loaded scripts in the order of loading, and the one that is being run. -/
structure Store where
  scripts : List Script := []
  current : Option ScriptId := none
deriving DecidableEq, Repr

namespace Store

/-- The number of loaded scripts. -/
def size (s : Store) : Nat :=
  s.scripts.length

/-- The script of a number. -/
def get? (s : Store) (id : ScriptId) : Option Script :=
  s.scripts[id]?

/-- The number of the script of a name. -/
def idOf? (s : Store) (name : Text) : Option ScriptId :=
  s.scripts.findIdx? fun script => script.name == name

/-- Adds a script, unless its name is taken. -/
def insert? (s : Store) (name : Text) (nodes : List Node) : Option (ScriptId × Store) :=
  if (s.idOf? name).isSome then
    none
  else
    some (s.size, { s with scripts := s.scripts ++ [{ id := s.size, name, nodes }] })

/-- Changes one script. -/
def modify (s : Store) (id : ScriptId) (f : Script → Script) : Store :=
  { s with scripts := s.scripts.modify id f }

/-- Changes every script. -/
def map (s : Store) (f : Script → Script) : Store :=
  { s with scripts := s.scripts.map f }

/-- The nodes of a script; a script that is not loaded has none. -/
def nodes (s : Store) (id : ScriptId) : List Node :=
  ((s.get? id).map Script.nodes).getD []

/-- The text of a node. -/
def valueAt? (s : Store) (id : ScriptId) (index : Nat) : Option Text :=
  ((s.nodes id)[index]?).map Node.value

/-- Gives a node a new text. -/
def setValue (s : Store) (id : ScriptId) (index : Nat) (value : Text) : Store :=
  s.modify id fun script =>
    { script with nodes := script.nodes.modify index fun node => { node with value } }

end Store

end Sigil
