/-!
# Powers of two and ten

The powers that binary and decimal numbers are made of, with the laws by which powers of two are
compared and divided.
-/

namespace Sigil

/-- A power of two. -/
def twoPow (n : Nat) : Nat :=
  Nat.pow 2 n

/-- A power of ten. -/
def tenPow (n : Nat) : Nat :=
  Nat.pow 10 n

/-- No power of two is zero. -/
theorem twoPow_pos (n : Nat) : 0 < twoPow n :=
  Nat.two_pow_pos n

/-- A sum in the exponent is a product of powers. -/
theorem twoPow_add (m n : Nat) : twoPow (m + n) = twoPow m * twoPow n :=
  Nat.pow_add 2 m n

/-- Powers of two grow with the exponent. -/
theorem twoPow_le {m n : Nat} (h : m ≤ n) : twoPow m ≤ twoPow n :=
  Nat.pow_le_pow_right Nat.zero_lt_two h

/-- A power of two divides every later one. -/
theorem twoPow_dvd {m n : Nat} (h : m ≤ n) : twoPow m ∣ twoPow n :=
  Nat.pow_dvd_pow 2 h

/-- The logarithm undoes the power. -/
theorem log2_twoPow (n : Nat) : (twoPow n).log2 = n :=
  Nat.log2_two_pow

/-- A number has fewer binary digits than a power of two above it. -/
theorem log2_lt_iff_lt_twoPow {n k : Nat} (h : n ≠ 0) : n.log2 < k ↔ n < twoPow k :=
  Nat.log2_lt h

/-- Every number is below the power of two one beyond its logarithm. -/
theorem lt_twoPow_log2 (n : Nat) : n < twoPow (n.log2 + 1) :=
  Nat.lt_log2_self

end Sigil
