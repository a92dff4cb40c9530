import Sigil.Text.Basic

/-!
# Keywords

The words that statements start with.
-/

namespace Sigil

/-- The words that have a meaning. -/
inductive Keyword where
  /-- A remark, which does nothing. -/
  | remark
  | print
  | declare
  | func
  | giveBack
  | call
  | branch
  | eq
  | lt
  | gt
  /-- The opposite of `eq`. -/
  | op
  | insert
  | remove
  | read
  | usingFile
  | exportAll
  | native
deriving DecidableEq, Repr

namespace Keyword

/-- All keywords. -/
def all : List Keyword :=
  [.remark, .print, .declare, .func, .giveBack, .call, .branch, .eq, .lt, .gt, .op, .insert,
   .remove, .read, .usingFile, .exportAll, .native]

/-- The spelling of a keyword, without its mark. -/
def name : Keyword → String
  | .remark => "c"
  | .print => "print"
  | .declare => "declare"
  | .func => "func"
  | .giveBack => "return"
  | .call => "call"
  | .branch => "if"
  | .eq => "eq"
  | .lt => "lt"
  | .gt => "gt"
  | .op => "op"
  | .insert => "insert"
  | .remove => "remove"
  | .read => "read"
  | .usingFile => "usingfile"
  | .exportAll => "exportall"
  | .native => "execjs"

/-- The keyword of a spelling. -/
def ofText? (word : Text) : Option Keyword :=
  all.find? fun k => k.name.toList == word

/-- The comparisons that decide conditions. -/
def isCondition : Keyword → Bool
  | .eq | .lt | .gt => true
  | _ => false

/-- The words that are never reported as unknown, whether they have a meaning or not. -/
def tolerated : List String :=
  ["declare", "func", "if", "else", "return", "for", "elseif", "c", "call", "print"]

/-- Whether a word is never reported as unknown. -/
def isTolerated (word : Text) : Bool :=
  tolerated.any fun w => w.toList == word

end Keyword

/-- How the text of a variable is read. -/
inductive ReadMode where
  /-- As it is. -/
  | string
  /-- As a number, which is written anew. -/
  | number
  /-- As an array text, of which one item is taken. -/
  | array
deriving DecidableEq, Repr

namespace ReadMode

/-- The name of a mode. -/
def name : ReadMode → String
  | .string => "string"
  | .number => "number"
  | .array => "array"

/-- The mode of a name, blanks around it not counting. -/
def ofText? (t : Text) : Option ReadMode :=
  [ReadMode.string, .number, .array].find? fun mode => mode.name.toList == Text.trim t

end ReadMode

end Sigil
