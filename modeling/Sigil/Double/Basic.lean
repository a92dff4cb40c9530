import Sigil.Double.Power

/-!
# Double-precision numbers

A finite double is a sign and a whole number of units, one unit being `2 ^ -1074`. Not every number
of units is a double: it must have at most 53 significant binary digits and stay below `2 ^ 1024`.
Counting in units makes every comparison, product and quotient exact arithmetic on natural numbers,
followed by one rounding, `Double.ofRatio`.
-/

namespace Sigil

/-- A quotient rounded to the nearest whole number, a half going to the even neighbour. -/
def roundDiv (num den : Nat) : Nat :=
  let quotient := num / den
  let remainder := num % den
  if 2 * remainder < den then
    quotient
  else if den < 2 * remainder then
    quotient + 1
  else
    quotient + quotient % 2

namespace Double

/-- The number of binary places after the point. -/
def places : Nat := 1074

/-- The number of units in the number one. -/
def one : Nat := twoPow places

/-- The least number of units that is too large to be finite: those of `2 ^ 1024`. -/
def overflow : Nat := twoPow (1024 + places)

/-- The position of the lowest binary digit that a double of this size can have. -/
def quantum (units : Nat) : Nat :=
  units.log2 - 52

/-- The numbers of units that a finite double can have. -/
structure Representable (units : Nat) : Prop where
  lt_overflow : units < overflow
  quantum_dvd : twoPow (quantum units) ∣ units

instance (units : Nat) : Decidable (Representable units) :=
  decidable_of_iff (units < overflow ∧ twoPow (quantum units) ∣ units)
    ⟨fun h => ⟨h.1, h.2⟩, fun h => ⟨h.1, h.2⟩⟩

end Double

/-- A double-precision number. All the values that are not a number count as one. -/
inductive Double where
  | nan
  | infinite (negative : Bool)
  | finite (negative : Bool) (units : Nat) (representable : Double.Representable units)
deriving DecidableEq

namespace Double

/-- A coefficient of at most 53 binary digits, moved to any position, fits the quantum of its
size. -/
theorem quantum_dvd_of_le {m : Nat} (e : Nat) (hm : m ≤ twoPow 53) :
    twoPow (quantum (m * twoPow e)) ∣ m * twoPow e := by
  rcases Nat.eq_zero_or_pos m with rfl | hpos
  · rw [Nat.zero_mul]
    exact Nat.dvd_zero _
  have hne : m * twoPow e ≠ 0 := Nat.ne_of_gt (Nat.mul_pos hpos (twoPow_pos e))
  rcases Nat.lt_or_eq_of_le hm with hlt | rfl
  · have hlog : (m * twoPow e).log2 < 53 + e := by
      rw [log2_lt_iff_lt_twoPow hne, twoPow_add]
      exact Nat.mul_lt_mul_of_pos_right hlt (twoPow_pos e)
    have hle : quantum (m * twoPow e) ≤ e := by
      unfold quantum
      omega
    exact Nat.dvd_trans (twoPow_dvd hle) (Nat.dvd_mul_left _ _)
  · rw [← twoPow_add]
    apply twoPow_dvd
    rw [quantum, log2_twoPow]
    omega

/-- A quotient whose whole part is below `n` rounds to at most `n`. -/
theorem roundDiv_le_of_div_lt {num den n : Nat} (h : num / den < n) : roundDiv num den ≤ n := by
  unfold roundDiv
  have : num / den % 2 ≤ 1 := Nat.le_of_lt_succ (Nat.mod_lt _ (by decide))
  dsimp only
  split
  · omega
  · split <;> omega

/-- The number of units nearest to `num / den` units that keeps to 53 binary digits. -/
def roundUnits (num den : Nat) : Nat :=
  let e := quantum (num / den)
  roundDiv num (den * twoPow e) * twoPow e

/-- Rounding gives a number of units that fits its quantum. -/
theorem quantum_dvd_roundUnits (num den : Nat) :
    twoPow (quantum (roundUnits num den)) ∣ roundUnits num den := by
  apply quantum_dvd_of_le
  apply roundDiv_le_of_div_lt
  rw [← Nat.div_div_eq_div_mul, Nat.div_lt_iff_lt_mul (twoPow_pos _), ← twoPow_add]
  refine Nat.lt_of_lt_of_le (lt_twoPow_log2 (num / den)) (twoPow_le ?_)
  unfold quantum
  omega

/-- The double nearest to `num / den`, with the given sign; a half goes to the even neighbour, and
what is too large becomes infinite. -/
def ofRatio (negative : Bool) (num den : Nat) : Double :=
  if h : roundUnits (num * one) den < overflow then
    .finite negative (roundUnits (num * one) den) ⟨h, quantum_dvd_roundUnits _ _⟩
  else
    .infinite negative

/-- The double nearest to a natural number, with the given sign. -/
def ofNat (negative : Bool) (n : Nat) : Double :=
  ofRatio negative n 1

/-- The bound that every finite number stays below is not zero. -/
theorem overflow_pos : 0 < overflow :=
  twoPow_pos (1024 + places)

/-- Zero, with the given sign. -/
def zero (negative : Bool) : Double :=
  .finite negative 0 ⟨overflow_pos, Nat.dvd_zero _⟩

/-- Whether a number is neither infinite nor missing. -/
def isFinite : Double → Bool
  | .finite .. => true
  | _ => false

/-- The place of a number on the line of signed units, the infinities standing just beyond all
finite numbers. -/
def rank : Double → Option Int
  | .nan => none
  | .infinite negative => some (if negative then -(overflow : Int) else overflow)
  | .finite negative units _ => some (if negative then -(units : Int) else units)

/-- Compares two numbers by what they denote; the two zeros are equal, and what is not a number has
no order. -/
def compare (a b : Double) : Option Ordering := do
  let x ← a.rank
  let y ← b.rank
  return Ord.compare x y

/-- Whether two numbers denote the same. -/
def equal (a b : Double) : Bool :=
  a.compare b == some .eq

/-- The whole number that a double is, if it is one and lies below `bound`: sign and size. -/
def whole? (bound : Nat) : Double → Option (Bool × Nat)
  | .finite negative units _ =>
    if units % one = 0 ∧ units < bound * one then some (negative, units / one) else none
  | _ => none

/-- The product of a double with a power of ten that was itself rounded to a double. Only finite
doubles are scaled. -/
def timesPowerOfTen (x : Double) (k : Nat) : Double :=
  match x, ofNat false (tenPow k) with
  | .finite negative units _, .finite _ power _ => ofRatio negative (units * power) (one * one)
  | _, _ => x

/-- The quotient of a double by a power of ten that was itself rounded to a double. Only finite
doubles are scaled. -/
def overPowerOfTen (x : Double) (k : Nat) : Double :=
  match x, ofNat false (tenPow k) with
  | .finite negative units _, .finite _ power _ => ofRatio negative units power
  | _, _ => x

end Double

end Sigil
