import Paillier.Number.BigEndian

/-!
# Rounding to double precision

A double has 53 binary digits, so a natural number with more of them is rounded: to the nearest multiple of
the unit that its last digit stands for, a half to the even one. From `2 ^ 1024` on there is no double.

## Main statements

* `roundToDouble_of_lt` — numbers below `2 ^ 53` are doubles.
* `roundToDouble_near` — rounding moves a number by half a unit at most.
-/

namespace Paillier

attribute [local instance] natPow

/-- The number of binary digits of a double. -/
def doubleBits : Nat := 53

/-- From this number on there is no double. -/
def doubleLimit : Nat := 2 ^ (1024 : Nat)

/-- What the last digit of the double next to `n` stands for. -/
def doubleUnit (n : Nat) : Nat := 2 ^ (bitLength n - doubleBits)

/-- The nearest number of 53 binary digits, with any number of zeros behind them. -/
def roundToDouble (n : Nat) : Nat :=
  let unit := doubleUnit n
  let below := n / unit
  let half := 2 * (n % unit)
  if unit < half ∨ unit = half ∧ below % 2 = 1 then (below + 1) * unit else below * unit

/-- Numbers below `2 ^ 53` are doubles. -/
theorem roundToDouble_of_lt {n : Nat} (h : n < 2 ^ doubleBits) : roundToDouble n = n := by
  have hunit : doubleUnit n = 1 := by
    rw [doubleUnit, Nat.sub_eq_zero_of_le (bitLength_le_iff.mpr h), Nat.pow_zero]
  simp [roundToDouble, hunit, Nat.mod_one]

/-- Rounding moves a number by half a unit at most. -/
theorem roundToDouble_near (n : Nat) :
    2 * n ≤ 2 * roundToDouble n + doubleUnit n ∧ 2 * roundToDouble n ≤ 2 * n + doubleUnit n := by
  have hdiv := Nat.div_add_mod n (doubleUnit n)
  rw [Nat.mul_comm] at hdiv
  unfold roundToDouble
  dsimp only
  split
  · rw [Nat.add_mul, Nat.one_mul]
    have hlt : n % doubleUnit n < doubleUnit n := Nat.mod_lt n (Nat.two_pow_pos _)
    omega
  · omega

end Paillier
