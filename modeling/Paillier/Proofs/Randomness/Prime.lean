import Mathlib.Tactic.Ring
import Paillier.Proofs.Randomness.Yield

/-!
# What random primes look like

Whatever bytes a candidate is made from, it has the length that was asked for, both its top bits are set, and it
leaves the given residue. So a random prime has these properties too, and the product of two of them has twice the
length.

## Main statements

* `isCandidate_primeCandidate` — every draw is made into a candidate.
* `IsCandidate.bitLength_mul` — the product of two candidates has full length.
* `yields_randomPrime` — a random prime is a candidate that passes the primality test.
-/

namespace Paillier

/-! ## Candidates -/

/-- A number of `bits` bits whose two top bits are set and that is `residue` modulo 8. -/
structure IsCandidate (bits residue c : Nat) : Prop where
  top_le : 3 * 2 ^ (bits - 2) ≤ c
  lt : c < 2 ^ bits
  residue_eq : c % 8 = residue

/-- **Every draw is made into a candidate.** -/
theorem isCandidate_primeCandidate {bits residue : Nat} (hbits : 5 ≤ bits) (hresidue : residue < 8) (value : Nat) :
    IsCandidate bits residue (primeCandidate bits residue value) := by
  obtain ⟨k, rfl⟩ := Nat.exists_eq_add_of_le' hbits
  have htop : 2 ^ (k + 5 - 2) = 8 * 2 ^ k := by
    rw [show k + 5 - 2 = k + 3 by omega]
    ring
  have hall : 2 ^ (k + 5) = 32 * 2 ^ k := by ring
  have hmiddle : value % (8 * 2 ^ k) < 8 * 2 ^ k := Nat.mod_lt _ (Nat.mul_pos (by decide) (Nat.two_pow_pos k))
  -- the bits between are a multiple of 8 below the two top bits
  generalize hv : value % (8 * 2 ^ k) = v at hmiddle
  have hcandidate : primeCandidate (k + 5) residue value = 3 * (8 * 2 ^ k) + v / 8 * 8 + residue := by
    rw [primeCandidate, htop, hv]
  constructor
  · rw [hcandidate, htop]
    omega
  · rw [hcandidate, hall]
    omega
  · rw [hcandidate]
    omega

namespace IsCandidate

variable {bits residue other p q : Nat}

theorem bitLength_eq (h : IsCandidate bits residue p) (hbits : 2 ≤ bits) : bitLength p = bits := by
  have hupper := bitLength_le_iff.mpr h.lt
  have hlower : bits - 1 < bitLength p := by
    have hpow : 2 ^ (bits - 1) = 2 * 2 ^ (bits - 2) := by
      rw [show bits - 1 = bits - 2 + 1 by omega, Nat.pow_succ, Nat.mul_comm]
    have htop := h.top_le
    refine lt_bitLength_iff.mpr ?_
    rw [hpow]
    omega
  omega

/-- **The product of two candidates has full length**, as already `9 / 16` of the largest product does. -/
theorem bitLength_mul (hp : IsCandidate bits residue p) (hq : IsCandidate bits other q) (hbits : 2 ≤ bits) :
    bitLength (p * q) = 2 * bits := by
  obtain ⟨k, rfl⟩ := Nat.exists_eq_add_of_le' hbits
  have hupper : p * q < 2 ^ (2 * (k + 2)) := by
    calc p * q < 2 ^ (k + 2) * 2 ^ (k + 2) := Nat.mul_lt_mul'' hp.lt hq.lt
      _ = 2 ^ (2 * (k + 2)) := by ring
  have hlower : 2 ^ (2 * k + 3) ≤ p * q := by
    calc 2 ^ (2 * k + 3) = 8 * (2 ^ k * 2 ^ k) := by ring
      _ ≤ 9 * (2 ^ k * 2 ^ k) := Nat.mul_le_mul_right _ (by decide)
      _ = 3 * 2 ^ k * (3 * 2 ^ k) := by ring
      _ ≤ p * q := Nat.mul_le_mul hp.top_le hq.top_le
  have hle := bitLength_le_iff.mpr hupper
  have hlt := lt_bitLength_iff.mpr hlower
  omega

end IsCandidate

/-! ## Random primes -/

section

variable {bits residue : Nat}

theorem yields_drawPrime (hbits : 5 ≤ bits) (hcapacity : bits ≤ capacityBits) (hresidue : residue < 8)
    (attempt : Nat) :
    (drawPrime bits residue attempt).Yields (bytesForBits bits) fun found =>
      ∀ p ∈ found, IsCandidate bits residue p ∧ isPrime p = true := by
  refine (Sampler.yields_draw _).bind fun block hlen => ?_
  have hshort : block.length ≤ capacityBytes := by
    rw [hlen]
    exact bytesForBits_le_capacityBytes_iff.mpr hcapacity
  refine Sampler.Yields.bind_outcome (numberOfBytes_eq_ok hshort) ?_
  dsimp only
  split
  · next hpass =>
    refine (Sampler.yields_record _).bind fun _ _ => Sampler.yields_pure ?_
    rintro p ⟨⟩
    exact ⟨isCandidate_primeCandidate hbits hresidue _, hpass⟩
  · exact Sampler.yields_pure fun p hp => nomatch hp

/-- **A random prime is a candidate that passes the test, and nothing but the end of the entropy prevents it.** -/
theorem yields_randomPrime (hbits : 8 ≤ bits) (hcapacity : bits ≤ capacityBits) (hresidue : residue < 8)
    (hodd : residue % 2 = 1) :
    (randomPrime bits residue).Yields (bytesForBits bits) fun p =>
      IsCandidate bits residue p ∧ isPrime p = true := by
  rw [randomPrime, dif_pos ⟨hbits, hresidue, hodd⟩]
  exact Sampler.Yields.bind_outcome (reserveScratch_eq_ok hcapacity)
    (Sampler.Yields.untilSome _ fun attempt => yields_drawPrime (by omega) hcapacity hresidue attempt)

end

end Paillier
