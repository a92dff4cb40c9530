import Sigil.ArrayText.Problem

/-!
# Numbers in array texts

A number is read one character at a time. Its digits are gathered in a word of 64 bits; digits that
no longer fit are dropped, and the number is that word times a power of ten, computed with one
rounding for the word, one for the power and one for their product or quotient.
-/

namespace Sigil.ArrayText

/-- How far the reading of a number has come. -/
inductive Stage where
  /-- Behind the minus sign. -/
  | sign
  /-- Behind a leading zero. -/
  | zero
  /-- Inside the digits before the point. -/
  | whole
  /-- Behind the point. -/
  | point
  /-- Inside the digits after the point. -/
  | fraction
  /-- Behind the exponent mark. -/
  | mark
  /-- Behind the sign of the exponent. -/
  | markSign
  /-- Inside the digits of the exponent. -/
  | exponent
deriving DecidableEq, Repr

/-- A number that is being read. -/
structure Figure where
  stage : Stage
  negative : Bool := false
  whole : Text := []
  fraction : Text := []
  exponentNegative : Bool := false
  exponent : Text := []
deriving DecidableEq, Repr

namespace Figure

/-- The number that starts with a character, if one does. -/
def start? (c : Char) : Option Figure :=
  if c = '-' then
    some { stage := .sign, negative := true }
  else if c = '0' then
    some { stage := .zero, whole := [c] }
  else if c.isDigit then
    some { stage := .whole, whole := [c] }
  else
    none

/-- Goes behind the point or the exponent mark, if the character is one of these. -/
def mark? (f : Figure) (c : Char) (pointAllowed : Bool) : Option Figure :=
  if c = '.' && pointAllowed then
    some { f with stage := .point }
  else if c = 'e' || c = 'E' then
    some { f with stage := .mark }
  else
    none

/-- Adds a digit of the exponent. -/
def pushExponent (f : Figure) (c : Char) : Except Problem (Option Figure) :=
  if c.isDigit then
    .ok (some { f with stage := .exponent, exponent := f.exponent ++ [c] })
  else
    .error .invalidNumber

/-- Reads one more character. The number ends before a character for which the result is `none`. -/
def advance (f : Figure) (c : Char) : Except Problem (Option Figure) :=
  match f.stage with
  | .sign =>
    match start? c with
    | some started =>
      if started.stage = .sign then .error .invalidNumber
      else .ok (some { started with negative := true })
    | none => .error .invalidNumber
  | .zero =>
    if c.isDigit then .error .invalidNumber else .ok (f.mark? c true)
  | .whole =>
    if c.isDigit then .ok (some { f with whole := f.whole ++ [c] }) else .ok (f.mark? c true)
  | .point =>
    if c.isDigit then .ok (some { f with stage := .fraction, fraction := [c] })
    else .error .invalidNumber
  | .fraction =>
    if c.isDigit then .ok (some { f with fraction := f.fraction ++ [c] })
    else .ok (f.mark? c false)
  | .mark =>
    if c = '+' then
      .ok (some { f with stage := .markSign })
    else if c = '-' then
      .ok (some { f with stage := .markSign, exponentNegative := true })
    else
      f.pushExponent c
  | .markSign => f.pushExponent c
  | .exponent =>
    if c.isDigit then f.pushExponent c else .ok none

/-- Whether the number may end here. -/
def complete (f : Figure) : Bool :=
  match f.stage with
  | .zero | .whole | .fraction | .exponent => true
  | .sign | .point | .mark | .markSign => false

/-- Gathers digits as long as they fit into 64 bits: the word so far, and the number of digits from
the first one that did not fit. -/
def gather (word : Nat) : Text → Nat × Nat
  | [] => (word, 0)
  | c :: rest =>
    let next := 10 * word + (c.toNat - '0'.toNat)
    if next < twoPow 64 then gather next rest else (word, rest.length + 1)

/-- A word times a power of ten. -/
def scale (negative : Bool) (word : Nat) (exponent : Int) : Except Problem Double :=
  let x := Double.ofNat negative word
  if word = 0 then
    .ok (.zero negative)
  else if 308 < exponent then
    .error .numberOutOfRange
  else if 0 ≤ exponent then
    let product := x.timesPowerOfTen exponent.toNat
    if product.isFinite then .ok product else .error .numberOutOfRange
  else if -308 ≤ exponent then
    .ok (x.overPowerOfTen (-exponent).toNat)
  else if -616 ≤ exponent then
    .ok ((x.overPowerOfTen 308).overPowerOfTen (-(exponent + 308)).toNat)
  else
    .ok (.zero negative)

/-- The number that was read. Without a point, an exponent or dropped digits it is a whole number,
except for the negative ones that do not fit into 64 bits with their sign and for negative zero. -/
def found (f : Figure) : Except Problem Found :=
  let (word, dropped) := gather 0 f.whole
  if (f.stage = .zero ∨ f.stage = .whole) ∧ dropped = 0 then
    if f.negative ∧ (word = 0 ∨ twoPow 63 < word) then
      .ok (.float (.ofNat true word))
    else
      .ok (.integer f.negative word)
  else
    let (word, surplus) := gather word f.fraction
    let written : Int := Numeral.digitsValue f.exponent
    let shift : Int := dropped - (f.fraction.length - surplus : Nat)
    if twoPow 31 ≤ written then
      if word ≠ 0 ∧ f.exponentNegative = false then
        .error .numberOutOfRange
      else
        .ok (.float (.zero f.negative))
    else
      let exponent := if f.exponentNegative then shift - written else shift + written
      (scale f.negative word exponent).map .float

end Figure

end Sigil.ArrayText
