import Mathlib.Data.Nat.Totient
import Paillier.Number.BigEndian

/-!
# Two primes of the same length

The primes of a key have the same length and different residues modulo 8. That is enough for `λ` to be
invertible modulo `N`: neither prime can divide its neighbour's predecessor. The predecessor is even and the
prime odd, so the quotient would be at least two, and the other prime longer. With a minus in front of a prime it is
the successor that counts; there the quotient could be two, but then the residue would be another one.

## Main statements

* `PrimePair.coprime_totient` — `(p - 1) * (q - 1)` and `p * q` have no common factor.
* `PrimePair.coprime_predecessors` — whatever the signs of `p` and `q` are.
* `PrimePair.totient_mul` — Euler's function of `p * q` is `(p - 1) * (q - 1)`.
-/

namespace Paillier

/-- A number is less than twice any other number of its length. -/
theorem lt_two_mul_of_bitLength_eq {p q : Nat} (h : bitLength p = bitLength q) (hq : 0 < q) : p < 2 * q := by
  have hpos : 0 < bitLength q := lt_bitLength_iff.mpr (by rwa [Nat.pow_zero])
  obtain ⟨k, hk⟩ := Nat.exists_eq_succ_of_ne_zero (Nat.ne_of_gt hpos)
  have hupper : p < 2 ^ (k + 1) := bitLength_le_iff.mp (by omega)
  have hlower : 2 ^ k ≤ q := lt_bitLength_iff.mp (by omega)
  rw [Nat.pow_succ] at hupper
  omega

/-- Two primes of the same length that are `3` and `7` modulo 8. -/
structure PrimePair (p q : Nat) : Prop where
  prime_p : p.Prime
  prime_q : q.Prime
  length_eq : bitLength p = bitLength q
  residue_p : p % 8 = 3
  residue_q : q % 8 = 7

theorem even_of_odd_mul {p t : Nat} (hp : p % 2 = 1) (h : p * t % 2 = 0) : t % 2 = 0 := by
  rwa [Nat.mul_mod, hp, Nat.one_mul, Nat.mod_mod] at h

/-- An odd prime does not divide the predecessor of another odd number of its length. -/
theorem not_dvd_pred_of_bitLength_eq {p q : Nat} (h : bitLength q = bitLength p) (hp : p % 2 = 1)
    (hq : q % 2 = 1) (hone : 1 < q) : ¬ p ∣ q - 1 := by
  rintro ⟨t, ht⟩
  have hlt : q < 2 * p := lt_two_mul_of_bitLength_eq h (by omega)
  have heven : t % 2 = 0 := even_of_odd_mul hp (by omega)
  -- an odd quotient cannot be, as q - 1 is even; from two on q is too long
  rcases Nat.lt_or_ge t 2 with hsmall | hlarge
  · have hzero : t = 0 := by omega
    rw [hzero, Nat.mul_zero] at ht
    omega
  · have := Nat.mul_le_mul_left p hlarge
    omega

/-- It divides the successor only if that is twice the prime. -/
theorem not_dvd_succ_of_bitLength_eq {p q : Nat} (h : bitLength q = bitLength p) (hp : p % 2 = 1)
    (hq : q % 2 = 1) (hdouble : q + 1 ≠ 2 * p) : ¬ p ∣ q + 1 := by
  rintro ⟨t, ht⟩
  have hlt : q < 2 * p := lt_two_mul_of_bitLength_eq h (by omega)
  have heven : t % 2 = 0 := even_of_odd_mul hp (by omega)
  rcases Nat.lt_trichotomy t 2 with hsmall | rfl | hlarge
  · have hzero : t = 0 := by omega
    rw [hzero, Nat.mul_zero] at ht
    omega
  · omega
  · have := Nat.mul_le_mul_left p hlarge
    omega

theorem not_dvd_own_pred {p : Nat} (h : 1 < p) : ¬ p ∣ p - 1 :=
  Nat.not_dvd_of_pos_of_lt (by omega) (by omega)

theorem not_dvd_own_succ {p : Nat} (h : 1 < p) : ¬ p ∣ p + 1 := by
  rw [Nat.dvd_add_right (Nat.dvd_refl p), Nat.dvd_one]
  omega

/-- The number before an integer is one off in magnitude, to the one side or to the other. -/
theorem natAbs_pred_cases (x : Int) : (x - 1).natAbs = x.natAbs - 1 ∨ (x - 1).natAbs = x.natAbs + 1 := by
  omega

namespace PrimePair

variable {p q : Nat}

theorem three_le_p (h : PrimePair p q) : 3 ≤ p := by
  have := h.residue_p
  omega

theorem seven_le_q (h : PrimePair p q) : 7 ≤ q := by
  have := h.residue_q
  omega

theorem ne (h : PrimePair p q) : p ≠ q := by
  have hp := h.residue_p
  have hq := h.residue_q
  omega

theorem coprime (h : PrimePair p q) : p.Coprime q :=
  (Nat.coprime_primes h.prime_p h.prime_q).mpr h.ne

theorem odd_mul (h : PrimePair p q) : p * q % 2 = 1 := by
  have hp := h.residue_p
  have hq := h.residue_q
  rw [Nat.mul_mod, show p % 2 = 1 by omega, show q % 2 = 1 by omega]

theorem one_lt_mul (h : PrimePair p q) : 1 < p * q :=
  Nat.lt_of_lt_of_le h.prime_p.one_lt (Nat.le_mul_of_pos_right p h.prime_q.pos)

/-- **Euler's function of the modulus is the product of the predecessors.** -/
theorem totient_mul (h : PrimePair p q) : Nat.totient (p * q) = (p - 1) * (q - 1) := by
  rw [Nat.totient_mul h.coprime, Nat.totient_prime h.prime_p, Nat.totient_prime h.prime_q]

/-- What neither prime divides has no factor in common with the modulus. -/
theorem coprime_mul (h : PrimePair p q) {a b : Nat} (hpa : ¬ p ∣ a) (hpb : ¬ p ∣ b) (hqa : ¬ q ∣ a)
    (hqb : ¬ q ∣ b) : Nat.Coprime (a * b) (p * q) := by
  have hcop_p : p.Coprime (a * b) := by
    rw [h.prime_p.coprime_iff_not_dvd, h.prime_p.dvd_mul, not_or]
    exact ⟨hpa, hpb⟩
  have hcop_q : q.Coprime (a * b) := by
    rw [h.prime_q.coprime_iff_not_dvd, h.prime_q.dvd_mul, not_or]
    exact ⟨hqa, hqb⟩
  exact (Nat.Coprime.mul_left hcop_p hcop_q).symm

/-- Neither prime divides a neighbour of either. -/
theorem coprime_neighbours (h : PrimePair p q) {a b : Nat} (ha : a = p - 1 ∨ a = p + 1)
    (hb : b = q - 1 ∨ b = q + 1) : Nat.Coprime (a * b) (p * q) := by
  have hp := h.residue_p
  have hq := h.residue_q
  refine h.coprime_mul ?_ ?_ ?_ ?_
  · rcases ha with rfl | rfl
    · exact not_dvd_own_pred h.prime_p.one_lt
    · exact not_dvd_own_succ h.prime_p.one_lt
  · rcases hb with rfl | rfl
    · exact not_dvd_pred_of_bitLength_eq h.length_eq.symm (by omega) (by omega) (by omega)
    · exact not_dvd_succ_of_bitLength_eq h.length_eq.symm (by omega) (by omega) (by omega)
  · rcases ha with rfl | rfl
    · exact not_dvd_pred_of_bitLength_eq h.length_eq (by omega) (by omega) (by omega)
    · exact not_dvd_succ_of_bitLength_eq h.length_eq (by omega) (by omega) (by omega)
  · rcases hb with rfl | rfl
    · exact not_dvd_own_pred h.prime_q.one_lt
    · exact not_dvd_own_succ h.prime_q.one_lt

/-- **Equal lengths keep `(p - 1) * (q - 1)` and `p * q` free of common factors.** -/
theorem coprime_totient (h : PrimePair p q) : Nat.Coprime ((p - 1) * (q - 1)) (p * q) :=
  h.coprime_neighbours (.inl rfl) (.inl rfl)

/-- **With a minus in front of a prime there is no common factor either.** -/
theorem coprime_predecessors {x y : Int} (h : PrimePair x.natAbs y.natAbs) :
    Nat.Coprime ((x - 1) * (y - 1)).natAbs (x * y).natAbs := by
  rw [Int.natAbs_mul, Int.natAbs_mul]
  exact h.coprime_neighbours (natAbs_pred_cases x) (natAbs_pred_cases y)

end PrimePair

end Paillier
