import Sigil.Text.Basic

/-!
# Addresses and scopes

A record of the symbol table is found again by its address. A variable is visible from the scope in
which it was declared: everywhere, or directly inside one bracket of one script.
-/

namespace Sigil

/-- The address of a record: a number given out at registration, or the name of a function. -/
inductive Address where
  | number (n : Nat)
  | named (name : Text)
deriving DecidableEq, Repr

/-- Numbers stand as they are, names behind a `*`. -/
def Address.toText : Address → Text
  | .number n => Nat.toDigits 10 n
  | .named name => '*' :: name

/-- The number of a loaded script: scripts are counted in the order in which they were loaded. -/
abbrev ScriptId := Nat

/-- Where a name is declared. -/
inductive Scope where
  | everywhere
  | bracket (script : ScriptId) (index : Nat)
deriving DecidableEq, Repr

namespace Scope

/-- The scope of what stands directly in the bracket `parent` of a script, or outside all
brackets. -/
def enclosing (script : ScriptId) : (parent : Option Nat) → Scope
  | none => .everywhere
  | some index => .bracket script index

/-- Whether a name declared in the scope can be seen from `site`. -/
def visibleFrom (scope site : Scope) : Bool :=
  scope == .everywhere || scope == site

end Scope

end Sigil
