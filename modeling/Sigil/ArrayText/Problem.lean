import Sigil.Value.Basic

/-!
# What can be wrong with an array text

The causes for which an array text is refused, and their wording.
-/

namespace Sigil.ArrayText

/-- A value as it was found in the text, before it is known to be wanted there. -/
inductive Found where
  | null
  | bool (b : Bool)
  | integer (negative : Bool) (size : Nat)
  | float (x : Double)
  | string (t : Text)
  | map
deriving DecidableEq

/-- What was wanted in the place of a value. -/
inductive Wanted where
  /-- The whole text must be a list. -/
  | list
  /-- An item of a list. -/
  | item
deriving DecidableEq, Repr

/-- The first thing that is wrong with a text. -/
inductive Problem where
  | endInList
  | endInValue
  | endInString
  | expectedCommaOrEnd
  | expectedWord
  | expectedValue
  | trailingComma
  | trailingCharacters
  | invalidEscape
  | invalidNumber
  | numberOutOfRange
  | controlCharacter
  | loneSurrogate
  | brokenSurrogatePair
  | tooDeep
  | unwanted (found : Found) (wanted : Wanted)
deriving DecidableEq

/-- The three classes of problems. -/
inductive ProblemClass where
  /-- The text ends too early. -/
  | truncated
  /-- The text is well-formed so far, but holds a value of the wrong sort. -/
  | content
  /-- The text is not well-formed. -/
  | grammar
deriving DecidableEq, Repr

/-- The value of an item, if it is of a sort that lists may hold. -/
def Found.value? : Found → Option Value
  | .null => none
  | .bool b => some (.bool b)
  | .integer negative size => some (.number (.ofNat negative size))
  | .float x => some (.number x)
  | .string t => some (.text t)
  | .map => none

/-- The description of a value that was not wanted. -/
def Found.describe : Found → Text
  | .null => "null".toList
  | .bool b => "boolean `".toList ++ Text.ofBool b ++ ['`']
  | .integer negative size => "integer `".toList ++ Layout.whole negative size ++ ['`']
  | .float x => "floating point `".toList ++ x.toStored ++ ['`']
  | .string t => "string ".toList ++ Text.quote t
  | .map => "map".toList

/-- The description of what was wanted. -/
def Wanted.describe : Wanted → String
  | .list => "a sequence"
  | .item => "a string, number, boolean or array"

namespace Problem

/-- The class of a problem. -/
def classify : Problem → ProblemClass
  | .endInList | .endInValue | .endInString => .truncated
  | .unwanted .. => .content
  | _ => .grammar

/-- The wording of a problem. -/
def message : Problem → String
  | .endInList => "EOF while parsing a list"
  | .endInValue => "EOF while parsing a value"
  | .endInString => "EOF while parsing a string"
  | .expectedCommaOrEnd => "expected `,` or `]`"
  | .expectedWord => "expected ident"
  | .expectedValue => "expected value"
  | .trailingComma => "trailing comma"
  | .trailingCharacters => "trailing characters"
  | .invalidEscape => "invalid escape"
  | .invalidNumber => "invalid number"
  | .numberOutOfRange => "number out of range"
  | .controlCharacter => "control character (\\u0000-\\u001F) found while parsing a string"
  | .loneSurrogate => "lone leading surrogate in hex escape"
  | .brokenSurrogatePair => "unexpected end of hex escape"
  | .tooDeep => "recursion limit exceeded"
  | .unwanted found wanted =>
    "invalid type: " ++ String.ofList found.describe ++ ", expected " ++ wanted.describe

end Problem

end Sigil.ArrayText
