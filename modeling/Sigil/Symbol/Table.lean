import Sigil.Symbol.Address

/-!
# The symbol table

All variables and functions, in the order of their registration. Records are never removed. A
record registered under a name takes the place of the one that had this name; every other record
is added at the end, under a number that no record had before.
-/

namespace Sigil

/-- A variable. -/
structure Variable where
  name : Text
  text : Text
  scope : Scope
deriving DecidableEq, Repr

/-- A function: a block of a script that runs when the function is called. -/
structure Function where
  name : Text
  /-- The list of parameters as it was written. -/
  rawParams : Text
  /-- The index of the block. -/
  body : Nat
  /-- The script that holds the block. -/
  owner : ScriptId
  params : List Text
deriving DecidableEq, Repr

/-- What a record holds. -/
inductive Entry where
  | variable (v : Variable)
  | function (f : Function)
deriving DecidableEq, Repr

/-- A record of the symbol table. -/
structure Symbol where
  address : Address
  entry : Entry
deriving DecidableEq, Repr

/-- The variable of a record, with its address. -/
def Symbol.asVariable (s : Symbol) : Option (Address × Variable) :=
  match s.entry with
  | .variable v => some (s.address, v)
  | .function _ => none

/-- The function of a record. -/
def Symbol.asFunction (s : Symbol) : Option Function :=
  match s.entry with
  | .variable _ => none
  | .function f => some f

/-- The records in the order of their registration. -/
structure Table where
  records : List Symbol := []
deriving DecidableEq, Repr

namespace Table

/-- The distance between consecutive numbers given out as addresses. -/
def stride : Nat := 812

/-- The number of records. -/
def size (t : Table) : Nat :=
  t.records.length

/-- The record at an address. -/
def lookup (t : Table) (address : Address) : Option Symbol :=
  t.records.find? fun s => s.address == address

/-- Puts a record into the place of the one at its address, or at the end if there is none. -/
def put (t : Table) (symbol : Symbol) : Table :=
  if (t.lookup symbol.address).isSome then
    ⟨t.records.map fun s => if s.address = symbol.address then symbol else s⟩
  else
    ⟨t.records ++ [symbol]⟩

/-- The address for a new record: its key if it has one, otherwise the next number. -/
def freshAddress (t : Table) : (key : Option Text) → Address
  | some key => .named key
  | none => .number (t.size * stride)

/-- Registers an entry and tells its address. -/
def register (t : Table) (entry : Entry) (key : Option Text) : Address × Table :=
  let address := t.freshAddress key
  (address, t.put { address, entry })

/-- The function of a name. -/
def function? (t : Table) (name : Text) : Option Function :=
  (t.lookup (.named name)).bind Symbol.asFunction

/-- All variables with their addresses. -/
def variableList (t : Table) : List (Address × Variable) :=
  t.records.filterMap Symbol.asVariable

/-- The variable of a name that was declared in exactly this scope; of several, the latest. -/
def variableIn (t : Table) (name : Text) (scope : Scope) : Option (Address × Variable) :=
  t.variableList.reverse.find? fun (_, v) => v.name == name && v.scope == scope

/-- The variable that a name means at a site: one of the same scope before one declared
everywhere. -/
def resolve (t : Table) (name : Text) (site : Scope) : Option (Address × Variable) :=
  t.variableIn name site <|> t.variableIn name .everywhere

/-- The text of the variable at an address. -/
def textAt (t : Table) (address : Address) : Option Text :=
  ((t.lookup address).bind Symbol.asVariable).map fun (_, v) => v.text

/-- Gives the variable at an address a new text; other records stay as they are. -/
def setText (t : Table) (address : Address) (text : Text) : Table :=
  ⟨t.records.map fun s =>
    match s.entry with
    | .variable v =>
      if s.address = address then { s with entry := .variable { v with text } } else s
    | .function _ => s⟩

/-- All addresses in the order of registration. -/
def addresses (t : Table) : List Address :=
  t.records.map Symbol.address

end Table

end Sigil
