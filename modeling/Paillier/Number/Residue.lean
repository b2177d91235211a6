import Paillier.Number.Capacity

/-!
# Residues

Arithmetic modulo a number: powers by repeated squaring, inverses by Euclid's algorithm, and the range
checks that stand before every use of an outside number. Products and powers are only computed modulo
odd numbers; anything else is a fault.

The sign of a modulus does not count, and results lie in `[0, |n|)`. Operands differ. A base stands for its
residue, so `-1` is the same base as `n - 1`; of the factors of a product only the magnitudes count; and an
inverse carries the sign of the number that it inverts.

## Main statements

* `powMod_eq` — squaring computes `b ^ e % m`.

## Termination

`powMod` halves the exponent; `bezout` runs Euclid's algorithm and its second remainder shrinks.
-/

namespace Paillier

attribute [local instance] natPow

/-! ## Powers -/

/-- The power `b ^ e % m`; the exponent is read one binary digit at a time. -/
def powMod (b e m : Nat) : Nat :=
  if e = 0 then 1 % m
  else
    let half := powMod (b * b % m) (e / 2) m
    if e % 2 = 0 then half else b * half % m
termination_by e
decreasing_by omega

/-- Repeated squaring computes the power. -/
theorem powMod_eq (b e m : Nat) : powMod b e m = b ^ e % m := by
  induction b, e using powMod.induct (m := m) with
  | case1 b => rw [powMod, if_pos rfl, Nat.pow_zero]
  | case2 b e he heven ih =>
    rw [powMod, if_neg he, if_pos heven, ih, ← Nat.pow_mod, ← Nat.pow_two, ← Nat.pow_mul,
      Nat.mul_div_cancel' (Nat.dvd_of_mod_eq_zero heven)]
  | case3 b e he hodd ih =>
    rw [powMod, if_neg he, if_neg hodd, ih, ← Nat.pow_mod, ← Nat.pow_two, ← Nat.pow_mul,
      Nat.mul_mod, Nat.mod_mod, ← Nat.mul_mod, Nat.mul_comm, ← Nat.pow_succ]
    congr 2
    omega

/-! ## Inverses -/

/--
Euclid's algorithm on `r₀` and `r₁` that also follows the coefficients: if the remainders are `s₀ * a`
and `s₁ * a` modulo `n`, the result times `a` is their greatest common divisor modulo `n`.
-/
def bezout (r₀ r₁ : Nat) (s₀ s₁ : Int) : Int :=
  if r₁ = 0 then s₀ else bezout r₁ (r₀ % r₁) s₁ (s₀ - (r₀ / r₁ : Nat) * s₁)
termination_by r₁
decreasing_by exact Nat.mod_lt _ (Nat.pos_of_ne_zero ‹_›)

/-- The inverse of `a` modulo `n`, in `[0, n)`. There is none modulo `0`; modulo `1` it is `0`. -/
def inverseMod? (a n : Nat) : Option Nat :=
  if 0 < n ∧ Nat.gcd a n = 1 then some ((bezout n (a % n) 0 1) % n).toNat else none

/-! ## Range checks -/

/-- Whether `a` is in `[0, n)`. -/
def isResidue (a n : Number) : Bool := decide (0 ≤ a) && decide (a < n)

/-- Whether `a` is in `[1, n)`. -/
def isNonzeroResidue (a n : Number) : Bool := decide (1 ≤ a) && decide (a < n)

/-- The greatest common divisor; if one number is zero, it is the other as it stands, with its sign. -/
def greatestCommonDivisor (a b : Number) : Number :=
  if a.isZero then b
  else if b.isZero then a
  else .positive (Nat.gcd a.magnitude b.magnitude)

/-- Whether the greatest common divisor of `a` and `n` is `1`. -/
def isCoprime (a n : Number) : Bool := greatestCommonDivisor a n == 1

theorem isResidue_iff {a n : Number} : isResidue a n = true ↔ 0 ≤ a ∧ a < n := by simp [isResidue]

theorem isNonzeroResidue_iff {a n : Number} : isNonzeroResidue a n = true ↔ 1 ≤ a ∧ a < n := by
  simp [isNonzeroResidue]

/-- For a modulus above zero the magnitudes decide. -/
theorem isCoprime_iff {a : Number} {n : Nat} (h : 0 < n) :
    isCoprime a (.positive n) = true ↔ Nat.gcd a.magnitude n = 1 := by
  have one : (1 : Number) = .positive 1 := rfl
  have hn : n ≠ 0 := Nat.ne_of_gt h
  unfold isCoprime greatestCommonDivisor Number.isZero
  rw [beq_iff_eq, one]
  split
  · next ha => simp [Number.positive, beq_iff_eq.mp ha]
  · simp [Number.positive, hn]

/-! ## Operations on numbers -/

namespace Residue

/-- The inverse of `a` modulo `n`, with the sign of `a`. Modulo `1` there is none. -/
def inverse? (a n : Number) : Option Number :=
  if a.sign = .none ∨ n.sign = .none ∨ n = 1 then none
  else (inverseMod? a.magnitude n.magnitude).map (.withSign a.sign)

/--
The residue of a product whose sign and magnitude modulo `n` are known. For a negative one `n` is added
and taken off again; that sum ends at the largest magnitude there is.
-/
def settled (sign : Sign) (residue n : Nat) : Nat :=
  if sign = .minus then min (residue + n) largestMagnitude % n else residue

/-- The product of `a` and `b` modulo an odd `n`, by their magnitudes. -/
def mul (a b n : Number) : Outcome Number :=
  if n.magnitude % 2 = 0 then fault .evenModulus
  else
    let residue := a.magnitude * b.magnitude % n.magnitude
    .ok (settled (a.sign * b.sign) residue n.magnitude : Nat)

/-- The sum of `a` and `b` modulo `n`. -/
def add (a b n : Number) : Number := ((a.toInt + b.toInt).natAbs % n.magnitude : Nat)

/--
The power `a ^ e` modulo an odd `n`. A negative exponent stands for a power of the inverse, and for
zero where there is no inverse.
-/
def pow (a e n : Number) : Outcome Number :=
  if n.magnitude % 2 = 0 then fault .evenModulus
  else
    let base := (a.toInt % n.magnitude).toNat
    if e.sign = .minus then
      match inverseMod? base n.magnitude with
      | some i => .ok (powMod i e.magnitude n.magnitude : Nat)
      | none => .ok 0
    else .ok (powMod base e.magnitude n.magnitude : Nat)

end Residue

end Paillier
