import Sigil.Double.Basic

/-!
# The binary64 encoding

A double as a word of 64 bits: one of sign, eleven of exponent, 52 of fraction. Words for values
that are not a number are not told apart.
-/

namespace Sigil.Double

/-- The double that a word encodes. -/
def ofBits (word : Nat) : Double :=
  let negative := word / twoPow 63 % 2 == 1
  let exponent := word / twoPow 52 % twoPow 11
  let fraction := word % twoPow 52
  if exponent = 2047 then
    if fraction = 0 then .infinite negative else .nan
  else if exponent = 0 then
    ofRatio negative fraction one
  else
    ofRatio negative ((twoPow 52 + fraction) * twoPow (exponent - 1)) one

/-- The word that encodes a double, if it is a number. -/
def toBits? : Double → Option Nat
  | .nan => none
  | .infinite negative => some (negative.toNat * twoPow 63 + 2047 * twoPow 52)
  | .finite negative units _ =>
    some (negative.toNat * twoPow 63 + quantum units * twoPow 52 + units / twoPow (quantum units))

end Sigil.Double
