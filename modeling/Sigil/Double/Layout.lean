import Sigil.Double.Shortest

/-!
# Writing numbers

How the shortest digits of a double are laid out: with the point in its place and zeros filled in,
or in scientific form. A `Layout` holds the decisions in which the formats differ.
-/

namespace Sigil

/-- The decisions of a number format. -/
structure Layout where
  /-- Whether a number whose first digit counts `10 ^ exponent` is written out in full. -/
  inFull : Int → Bool
  /-- Whether a whole number written out in full ends in `.0`. -/
  marksWhole : Bool
  /-- Which of two equally near decimals is written. -/
  tie : Tie

namespace Layout

/-- Digits written out in full. -/
def full (format : Layout) (d : Digits) : Text :=
  let size := d.digits.length
  if d.point ≤ 0 then
    ['0', '.'] ++ List.replicate (-d.point).toNat '0' ++ d.digits
  else if size ≤ d.point.toNat then
    d.digits ++ List.replicate (d.point.toNat - size) '0'
      ++ (if format.marksWhole then ['.', '0'] else [])
  else
    d.digits.take d.point.toNat ++ '.' :: d.digits.drop d.point.toNat

/-- Digits in scientific form; the exponent always has a sign. -/
def scientific (d : Digits) : Text :=
  let exponent := d.point - 1
  let mantissa := match d.digits with
    | first :: second :: others => first :: '.' :: second :: others
    | short => short
  mantissa ++ 'e' :: (if exponent < 0 then '-' else '+') :: Nat.toDigits 10 exponent.natAbs

/-- Digits as the format writes them. -/
def digits (format : Layout) (d : Digits) : Text :=
  if format.inFull (d.point - 1) then format.full d else scientific d

/-- A sign, written only if negative. -/
def sign (negative : Bool) : Text :=
  if negative then ['-'] else []

/-- A finite number as the format writes it. -/
def finite (format : Layout) (negative : Bool) (units : Nat) : Text :=
  sign negative ++ format.digits (Double.shortest format.tie units)

/-- A natural number with a sign, zero having none. -/
def whole (negative : Bool) (n : Nat) : Text :=
  sign (negative && n != 0) ++ Nat.toDigits 10 n

end Layout

end Sigil
