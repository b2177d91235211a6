import Mathlib.FieldTheory.Finite.Basic
import Mathlib.Tactic.Ring
import Paillier.Number.Primality

/-!
# Primes pass the strong test

A power that is one has a square root among the powers before it, and modulo a prime that root is one or minus one. So
the powers that the test looks at cannot skip minus one. The same argument decides the second test, where two powers
that are equal are compared.

## Main statements

* `two_pow_mul_oddPart` — a number is the product of its two parts.
* `eq_or_exists_eq_neg` — from equal powers back to equal or opposite ones.
* `isStrongProbablePrime_two` — an odd prime passes the strong test to base 2.
-/

namespace Paillier

/-! ## Odd parts -/

/-- **A number is the product of its two parts.** -/
theorem two_pow_mul_oddPart (n : Nat) : 2 ^ (oddPart n).1 * (oddPart n).2 = n := by
  induction n using oddPart.induct with
  | case1 n h =>
    rw [oddPart, if_pos h, Nat.pow_zero, Nat.one_mul]
  | case2 n h s d hparts ih =>
    rw [hparts] at ih
    rw [oddPart, if_neg h, hparts, Nat.pow_succ, Nat.mul_assoc, Nat.mul_left_comm, ih]
    omega

/-! ## Square roots -/

/-- **From equal powers back to equal or opposite ones.** A square has no other roots. -/
theorem eq_or_exists_eq_neg {K : Type*} [CommRing K] [NoZeroDivisors K] {x y : K} {s : Nat}
    (h : x ^ 2 ^ s = y ^ 2 ^ s) : x = y ∨ ∃ i < s, x ^ 2 ^ i = -y ^ 2 ^ i := by
  induction s with
  | zero => exact Or.inl (by simpa using h)
  | succ s ih =>
    rw [Nat.pow_succ, pow_mul, pow_mul] at h
    rcases sq_eq_sq_iff_eq_or_eq_neg.mp h with heq | hneg
    · rcases ih heq with hxy | ⟨i, hi, hroot⟩
      · exact Or.inl hxy
      · exact Or.inr ⟨i, Nat.lt_succ_of_lt hi, hroot⟩
    · exact Or.inr ⟨s, Nat.lt_succ_self s, hneg⟩

/-! ## The strong test -/

theorem zmod_pow_eq_one_iff {p : Nat} (hp : 1 < p) (g k : Nat) :
    (g : ZMod p) ^ k = 1 ↔ powMod g k p = 1 := by
  rw [powMod_eq, ← Nat.cast_pow, ← Nat.cast_one, ZMod.natCast_eq_natCast_iff', Nat.mod_eq_of_lt hp]

theorem two_ne_zero_of_odd {K : Type*} [AddMonoidWithOne K] {p : Nat} [CharP K p] (hp : p.Prime) (hodd : p % 2 = 1) :
    (2 : K) ≠ 0 := by
  intro hzero
  have hdvd : p ∣ 2 := (CharP.cast_eq_zero_iff K p 2).mp (by exact_mod_cast hzero)
  have hle := Nat.le_of_dvd Nat.two_pos hdvd
  have hge := hp.two_le
  omega

/-- What is squared is looked at before each squaring. -/
theorem squaresTo_of_pow_eq {target n i : Nat} (htarget : target < n) {count x : Nat} (hx : x < n) (hi : i < count)
    (h : ((x ^ 2 ^ i : Nat) : ZMod n) = target) : squaresTo target n count x = true := by
  induction count generalizing x i with
  | zero => exact absurd hi (Nat.not_lt_zero i)
  | succ count ih =>
    have hn : 0 < n := Nat.zero_lt_of_lt hx
    rw [squaresTo, Bool.or_eq_true]
    cases i with
    | zero =>
      rw [Nat.pow_zero, Nat.pow_one, ZMod.natCast_eq_natCast_iff', Nat.mod_eq_of_lt hx, Nat.mod_eq_of_lt htarget] at h
      exact Or.inl (beq_iff_eq.mpr h)
    | succ i =>
      refine Or.inr (ih (Nat.mod_lt _ hn) (Nat.lt_of_succ_lt_succ hi) ?_)
      rw [Nat.cast_pow, ZMod.natCast_mod, ← h, Nat.pow_succ', pow_mul, Nat.pow_two]
      push_cast
      ring

/-- **An odd prime passes the strong test to base 2.** -/
theorem isStrongProbablePrime_two {p : Nat} (hp : p.Prime) (hodd : p % 2 = 1) : isStrongProbablePrime 2 p = true := by
  have : Fact p.Prime := ⟨hp⟩
  have hparts := two_pow_mul_oddPart (p - 1)
  rcases hd : oddPart (p - 1) with ⟨s, d⟩
  rw [hd] at hparts
  have hfermat : ((2 : ZMod p) ^ d) ^ 2 ^ s = 1 ^ 2 ^ s := by
    rw [← pow_mul, Nat.mul_comm, hparts, one_pow]
    exact ZMod.pow_card_sub_one_eq_one (two_ne_zero_of_odd hp hodd)
  have hx : powMod 2 d p < p := by
    rw [powMod_eq]
    exact Nat.mod_lt _ hp.pos
  have hcast : ((powMod 2 d p : Nat) : ZMod p) = 2 ^ d := by
    rw [powMod_eq, ZMod.natCast_mod]
    push_cast
    rfl
  rw [isStrongProbablePrime, hd]
  dsimp only
  rw [Bool.or_eq_true]
  rcases eq_or_exists_eq_neg hfermat with hroot | ⟨i, hi, hroot⟩
  · left
    have hone : ((2 : Nat) : ZMod p) ^ d = 1 := by exact_mod_cast hroot
    exact beq_iff_eq.mpr ((zmod_pow_eq_one_iff hp.one_lt 2 d).mp hone)
  · right
    refine squaresTo_of_pow_eq (Nat.sub_lt hp.pos Nat.one_pos) hx hi ?_
    rw [Nat.cast_pow, hcast, hroot, one_pow, Nat.cast_sub hp.one_le, ZMod.natCast_self, Nat.cast_one, zero_sub]

end Paillier
