import Sigil.Text.Basic
import Sigil.Double.Basic

/-!
# The fewest digits that read back

A double is written with as few decimal digits as still read back as the same double; of two such
decimals with equally many digits, the nearer one is taken. Everything is decided in exact
arithmetic on natural numbers.
-/

namespace Sigil

/-- Which of two equally near decimals is taken. -/
inductive Tie where
  | up
  | even
deriving DecidableEq, Repr

/-- Decimal digits together with the place of the point: it stands `point` places to the right of
their start. There are no zeros at the end. -/
structure Digits where
  digits : Text
  point : Int
deriving DecidableEq, Repr

namespace Digits

/-- The digits of `n`, the last of which counts `10 ^ exponent`. -/
def ofNat (n : Nat) (exponent : Int) : Digits :=
  let digits := Nat.toDigits 10 n
  { digits := (digits.reverse.dropWhile (· == '0')).reverse
    point := digits.length + exponent }

/-- The digits of zero. -/
def zero : Digits := ⟨['0'], 1⟩

end Digits

namespace Double

/-- The numbers that round to a double of `units` units, as an interval in quarters of a unit. -/
structure Interval where
  low : Nat
  high : Nat
  closed : Bool

/-- The interval reaches half way to both neighbours, and the ends belong to it if the last binary
digit is even. Below a power of two the neighbour is only half as far. -/
def interval (units : Nat) : Interval :=
  let e := quantum units
  let below := if units = twoPow (52 + e) ∧ 0 < e then twoPow e else 2 * twoPow e
  { low := 4 * units - below
    high := 4 * units + 2 * twoPow e
    closed := units / twoPow e % 2 == 0 }

/-- Whether `num / den` quarters of a unit lie in an interval. -/
def Interval.contains (i : Interval) (num den : Nat) : Bool :=
  if i.closed then
    i.low * den ≤ num && num ≤ i.high * den
  else
    i.low * den < num && num < i.high * den

/-- The place of the point in the decimal expansion of a positive number of units: the number is
below `10 ^ place` and at least a tenth of that. No double has more than 324 zeros after its
point, so 400 places more always leave a whole number. -/
def place (units : Nat) : Int :=
  (Nat.toDigits 10 (units * tenPow 400 / one)).length - 400

/-- The nearer of the two multiples of `10 ^ exponent` around a number, provided that it reads back;
otherwise the other one, provided that it does. -/
def onGrid? (tie : Tie) (units : Nat) (exponent : Int) : Option Nat :=
  let step := tenPow exponent.toNat * (4 * one)
  let den := tenPow (-exponent).toNat
  let value := 4 * units * den
  let lower := value / step
  let readsBack (n : Nat) : Bool := (interval units).contains (n * step) den
  let upperFirst :=
    match Ord.compare (2 * (value % step)) step with
    | .lt => false
    | .gt => true
    | .eq => match tie with
      | .up => true
      | .even => lower % 2 == 1
  if upperFirst && readsBack (lower + 1) then
    some (lower + 1)
  else if readsBack lower then
    some lower
  else if readsBack (lower + 1) then
    some (lower + 1)
  else
    none

/-- The fewest digits that read back as the double of this many units. Seventeen always do. -/
def shortest (tie : Tie) (units : Nat) : Digits :=
  if units = 0 then
    .zero
  else
    let place := place units
    let found := (List.range 17).findSome? fun n =>
      let exponent := place - (n + 1 : Nat)
      (onGrid? tie units exponent).map fun d => Digits.ofNat d exponent
    found.getD .zero

end Double

end Sigil
