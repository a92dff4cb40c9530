import Sigil.Text.Quoted
import Sigil.Double.Decimal
import Sigil.Double.Layout

/-!
# Values

What statements produce and array variables hold: texts, numbers, truth values and lists of values.
Every value has a text, which is how it is stored in variables; a list's text is its array text.
-/

namespace Sigil

/-- A value of a script. -/
inductive Value where
  | text (t : Text)
  | number (x : Double)
  | bool (b : Bool)
  | array (items : List Value)

namespace Value

mutual

/-- Decides whether two values are the same. -/
def decEq : (a b : Value) → Decidable (a = b)
  | .text s, .text t => decidable_of_iff (s = t) (by simp)
  | .number x, .number y => decidable_of_iff (x = y) (by simp)
  | .bool a, .bool b => decidable_of_iff (a = b) (by simp)
  | .array xs, .array ys =>
    have := decEqItems xs ys
    decidable_of_iff (xs = ys) (by simp)
  | .text _, .number _ | .text _, .bool _ | .text _, .array _ => isFalse nofun
  | .number _, .text _ | .number _, .bool _ | .number _, .array _ => isFalse nofun
  | .bool _, .text _ | .bool _, .number _ | .bool _, .array _ => isFalse nofun
  | .array _, .text _ | .array _, .number _ | .array _, .bool _ => isFalse nofun

/-- Decides whether two lists of values are the same. -/
def decEqItems : (xs ys : List Value) → Decidable (xs = ys)
  | [], [] => isTrue rfl
  | [], _ :: _ | _ :: _, [] => isFalse nofun
  | x :: xs, y :: ys =>
    have := decEq x y
    have := decEqItems xs ys
    decidable_of_iff (x = y ∧ xs = ys) (by simp)

end

instance : DecidableEq Value := decEq

end Value

/-- Numbers in running text are always written out in full. -/
def Layout.running : Layout where
  inFull _ := true
  marksWhole := false
  tie := .up

/-- Numbers in array texts are written out in full from `0.00001` up to sixteen digits before the
point, whole ones ending in `.0`, and in scientific form otherwise. -/
def Layout.stored : Layout where
  inFull exponent := -5 ≤ exponent && exponent ≤ 15
  marksWhole := true
  tie := .even

namespace Double

/-- A number in running text. Whole numbers below `10 ^ 15` are written as such, so zero has no
sign. -/
def toText (x : Double) : Text :=
  match x.whole? (tenPow 15) with
  | some (negative, n) => Layout.whole negative n
  | none =>
    match x with
    | .nan => ['N', 'a', 'N']
    | .infinite negative => Layout.sign negative ++ ['i', 'n', 'f']
    | .finite negative units _ => Layout.running.finite negative units

/-- A number as the stored layout writes it; there is a word for what is not finite. -/
def toStored : Double → Text
  | .finite negative units _ => Layout.stored.finite negative units
  | _ => ['n', 'u', 'l', 'l']

/-- A number in an array text. Whole numbers below `9 * 10 ^ 15` are written as such. -/
def serialize (x : Double) : Text :=
  match x.whole? (9 * tenPow 15) with
  | some (negative, n) => Layout.whole negative n
  | none => x.toStored

end Double

/-- A truth value. -/
def Text.ofBool : Bool → Text
  | true => ['t', 'r', 'u', 'e']
  | false => ['f', 'a', 'l', 's', 'e']

namespace Value

mutual

/-- A value in an array text. -/
def serialize : Value → Text
  | .text t => Text.encode t
  | .number x => x.serialize
  | .bool b => Text.ofBool b
  | .array items => '[' :: serializeItems items

/-- The items of a list and the bracket that closes it. -/
def serializeItems : List Value → Text
  | [] => [']']
  | item :: others => item.serialize ++ serializeOthers others

/-- The items after the first one, each behind a comma, and the bracket that closes the list. -/
def serializeOthers : List Value → Text
  | [] => [']']
  | item :: others => ',' :: item.serialize ++ serializeOthers others

end

/-- The array text of a list of values. -/
def serializeArray (items : List Value) : Text :=
  serialize (.array items)

/-- The text under which a value is stored. -/
def toText : Value → Text
  | .text t => t
  | .number x => x.toText
  | .bool b => Text.ofBool b
  | .array items => serializeArray items

/-- The number that a value is or, if it is a text, says. -/
def number? : Value → Option Double
  | .number x => some x
  | .text t => Double.ofText? t
  | _ => none

/-- The order of two values: of their numbers if both have one, otherwise of their texts by code
points. -/
def compare (a b : Value) : Option Ordering :=
  match a.number?, b.number? with
  | some x, some y => x.compare y
  | _, _ => some (Text.compare a.toText b.toText)

/-- Whether two values say the same: as numbers if both have one, otherwise as texts. -/
def same (a b : Value) : Bool :=
  match a.number?, b.number? with
  | some x, some y => x.equal y
  | _, _ => a.toText == b.toText

end Value

end Sigil
