import Sigil.Text.Basic
import Sigil.Double.Basic

/-!
# Reading decimals

The numeral grammar of scripts: an optional sign, ASCII digits with at most one point and at least
one digit, and an optional exponent with at least one digit. The number is the double nearest to
what the numeral says.
-/

namespace Sigil

namespace Double

/-- The double nearest to `coefficient * 10 ^ exponent`. Exponents whose outcome is clear from the
number of digits alone are settled before any power is computed. -/
def ofDecimal (negative : Bool) (coefficient : Nat) (exponent : Int) : Double :=
  if coefficient = 0 then
    zero negative
  else
    let magnitude := (Nat.toDigits 10 coefficient).length + exponent
    if 309 < magnitude then
      .infinite negative
    else if magnitude < -323 then
      zero negative
    else if 0 ≤ exponent then
      ofRatio negative (coefficient * tenPow exponent.toNat) 1
    else
      ofRatio negative coefficient (tenPow (-exponent).toNat)

end Double

/-- A numeral taken apart. -/
structure Numeral where
  negative : Bool
  whole : Text
  fraction : Text
  exponent : Int
deriving DecidableEq, Repr

namespace Numeral

/-- The number that a run of ASCII digits writes. -/
def digitsValue (digits : Text) : Nat :=
  Nat.ofDigitChars 10 digits 0

/-- Splits an optional sign off; the flag says whether it was a minus. -/
def takeSign : Text → Bool × Text
  | '-' :: rest => (true, rest)
  | '+' :: rest => (false, rest)
  | t => (false, t)

/-- Splits off the run of ASCII digits that a text starts with. -/
def takeDigits (t : Text) : Text × Text :=
  (t.takeWhile Char.isDigit, t.dropWhile Char.isDigit)

/-- The fraction digits after an optional point. -/
def takeFraction : Text → Text × Text
  | '.' :: rest => takeDigits rest
  | t => ([], t)

/-- The exponent that fills the rest of a numeral. -/
def exponent? : Text → Option Int
  | [] => some 0
  | mark :: rest =>
    if mark = 'e' ∨ mark = 'E' then
      let (negative, digits) := takeSign rest
      if digits.isEmpty || !digits.all Char.isDigit then
        none
      else
        some (if negative then -(digitsValue digits : Int) else digitsValue digits)
    else
      none

/-- Takes a whole text apart as a numeral. -/
def ofText? (t : Text) : Option Numeral :=
  let (negative, t) := takeSign t
  let (whole, t) := takeDigits t
  let (fraction, t) := takeFraction t
  if whole.isEmpty && fraction.isEmpty then
    none
  else
    (exponent? t).map fun exponent => { negative, whole, fraction, exponent }

/-- The double nearest to the numeral. -/
def toDouble (n : Numeral) : Double :=
  .ofDecimal n.negative (digitsValue (n.whole ++ n.fraction)) (n.exponent - n.fraction.length)

end Numeral

/-- Reads a text as a finite number, blanks around it not counting. Numerals too large to be finite,
and the names of values that are not finite, are no numbers. -/
def Double.ofText? (t : Text) : Option Double := do
  let n ← Numeral.ofText? (Text.trim t)
  let x := n.toDouble
  if x.isFinite then some x else none

/-- Reads a natural number below `2 ^ 64`: an optional plus sign and ASCII digits, nothing else. -/
def Numeral.index? (t : Text) : Option Nat :=
  let digits := match t with
    | '+' :: rest => rest
    | _ => t
  if digits.isEmpty || !digits.all Char.isDigit then
    none
  else
    let n := digitsValue digits
    if n < twoPow 64 then some n else none

end Sigil
