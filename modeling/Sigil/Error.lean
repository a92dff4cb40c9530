import Sigil.ArrayText.Problem
import Sigil.Keyword
import Sigil.Node.Basic

/-!
# Errors

The causes for which a statement or a whole run fails. A statement that fails for a recoverable
cause is skipped and reported; the others end the run. The wording of all of them is in
`Error.message`.
-/

namespace Sigil

/-- What is wrong with the way a statement is written. -/
inductive Fault where
  | missingOperand (kind : Kind) (nth : Nat)
  | invalidDeclaration (text : Text)
  | missingName
  | missingParameters
  | missingBody
  | partsOutOfOrder
  | emptyName
  | nothingToReturn
  | noValue (word : Text)
  | noComparison (label : Text)
  | unknownReadMode (mode : Text)
  | invalidTarget
  | missingIndex
  | emptySourceName
deriving DecidableEq, Repr

/-- Why a source could not be loaded. -/
inductive LoadFailure where
  | notFound
  | unreadable (reason : String)
deriving DecidableEq, Repr

/-- The causes of failure. -/
inductive Error where
  | malformed (keyword : Keyword) (fault : Fault)
  | unknownKeyword (word : Text)
  | undefinedFunction (name : Text)
  | undefinedVariable (name : Text)
  | arityMismatch (expected got : Nat) (name : Text)
  | notAnArray (name : Text) (problem : ArrayText.Problem)
  | notANumber (text : Text)
  | indexOutOfBounds (index length : Nat)
  | nativeDisabled
  | nativeFailed (reason : Text)
  | returnOutsideFunction
  | duplicateScript (name : Text)
  | load (name : Text) (failure : LoadFailure)
  | tooDeep (depth limit : Nat)
  | interrupted
deriving DecidableEq

/-- The wording of a fault. -/
def Fault.message : Fault → String
  | .missingOperand kind nth => s!"missing {kind.name} operand #{nth + 1}"
  | .invalidDeclaration text => s!"\"{String.ofList text}\" is not a valid variable declaration"
  | .missingName => "missing \x7bname\x7d block"
  | .missingParameters => "missing (parameter) list"
  | .missingBody => "missing \x7bbody\x7d block"
  | .partsOutOfOrder => "expected \x7bname\x7d (params) \x7bbody\x7d in that order"
  | .emptyName => "function name is empty"
  | .nothingToReturn => "nothing to return"
  | .noValue word => s!"`@{String.ofList word}` produced no value"
  | .noComparison label => s!"no comparison found for condition `{String.ofList label}`"
  | .unknownReadMode mode => s!"unknown read mode \"{String.ofList mode}\""
  | .invalidTarget => "expected \x7bout\x7d or \x7bindex, out\x7d"
  | .missingIndex => "array mode needs \x7bindex, out\x7d"
  | .emptySourceName => "empty source name"

namespace Error

/-- Whether only the statement fails, and not the run. -/
def isRecoverable : Error → Bool
  | .duplicateScript _ | .load .. | .tooDeep .. | .interrupted => false
  | _ => true

/-- The wording of an error. -/
def message : Error → String
  | .malformed keyword fault => s!"malformed `@{keyword.name}` statement: {fault.message}"
  | .unknownKeyword word => s!"unknown keyword: `@{String.ofList word}`"
  | .undefinedFunction name => s!"cannot find function `{String.ofList name}`"
  | .undefinedVariable name => s!"cannot find variable `{String.ofList name}`"
  | .arityMismatch expected got name =>
    s!"function `{String.ofList name}` takes {expected} argument(s) but {got} were supplied"
  | .notAnArray name problem =>
    s!"variable `{String.ofList name}` does not hold an array: {problem.message}"
  | .notANumber text => s!"`{String.ofList text}` is not a number"
  | .indexOutOfBounds index length =>
    s!"index {index} out of bounds for array of length {length}"
  | .nativeDisabled => "native calls are disabled"
  | .nativeFailed reason => s!"native call failed: {String.ofList reason}"
  | .returnOutsideFunction => "`@return` outside of a function"
  | .duplicateScript name => s!"module `{String.ofList name}` is already loaded"
  | .load name .notFound => s!"source `{String.ofList name}` not found"
  | .load name (.unreadable reason) => s!"failed to read `{String.ofList name}`: {reason}"
  | .tooDeep depth limit => s!"call depth exceeded: depth {depth} >= max {limit}"
  | .interrupted => "evaluation interrupted"

end Error

end Sigil
