import Mathlib.Data.List.Prime
import Mathlib.NumberTheory.LucasPrimality
import Mathlib.Tactic.NormNum.Prime
import Paillier.Proofs.Number.LucasTest

/-!
# Primes that are known to be primes

The primality test is a probable prime test: every prime passes, but no proof is known that no composite number does.
What is said about keys assumes that the test is right about the few numbers it was asked about, `ExactAt`, and about no
others. About primes it is.

That a given number is a prime can be proved. If the prime factors of `p - 1` are known, a number whose order modulo `p`
is `p - 1` shows that `p` is prime (Lucas). The two primes at the end belong to the smallest kind of key.

## Main statements

* `prime_of_certificate` — Lucas's criterion, with powers that can be computed.
-/

namespace Paillier

/-- The primality test is right about `n`. -/
def ExactAt (n : Nat) : Prop := isPrime n = true ↔ n.Prime

theorem exactAt_of_prime {n : Nat} (h : n.Prime) : ExactAt n := ⟨fun _ => h, isPrime_of_prime⟩

theorem exactAt_of_not_prime {n : Nat} (h : ¬ n.Prime) (hfail : isPrime n = false) : ExactAt n :=
  ⟨fun hpass => by simp [hfail] at hpass, fun hp => absurd hp h⟩

theorem ExactAt.eq_false_iff {n : Nat} (h : ExactAt n) : isPrime n = false ↔ ¬ n.Prime := by
  rw [← Bool.not_eq_true]
  exact not_congr h

/-! ## Lucas's criterion -/

/--
**A number `p` is prime if some `g` has the order `p - 1` modulo `p`.**

It is enough to try the exponents that lack one prime factor of `p - 1`. The list has to hold these factors
and may hold others; how often a factor divides `p - 1` does not matter.
-/
theorem prime_of_certificate {p : Nat} (g k : Nat) (factors : List Nat) (hp : 1 < p)
    (hprime : ∀ q ∈ factors, q.Prime) (hcover : p - 1 ∣ factors.prod ^ k)
    (hfull : powMod g (p - 1) p = 1) (hpart : ∀ q ∈ factors, powMod g ((p - 1) / q) p ≠ 1) : p.Prime := by
  refine lucas_primality p (g : ZMod p) ((zmod_pow_eq_one_iff hp g _).mpr hfull) fun q hq hdvd => ?_
  have hprod : q ∣ factors.prod := hq.dvd_of_dvd_pow (hdvd.trans hcover)
  have hmem : q ∈ factors :=
    mem_list_primes_of_dvd_prod hq.prime (fun f hf => (hprime f hf).prime) hprod
  exact fun hone => hpart q hmem ((zmod_pow_eq_one_iff hp g _).mp hone)

/-! ## Two primes of 128 bits -/

/-- A prime of 128 bits that is `3` modulo 8. -/
def exampleP : Nat := 2 * 5 ^ 45 * 13 ^ 6 + 1

/-- A prime of 128 bits that is `7` modulo 8. -/
def exampleQ : Nat := 2 * 3 ^ 3 * 13 ^ 33 + 1

theorem prime_exampleP : exampleP.Prime := by
  refine prime_of_certificate 2 45 [2, 5, 13] (by decide) ?_
    (by decide +kernel) (by decide +kernel) (by decide +kernel)
  simp only [List.forall_mem_cons]
  norm_num

theorem prime_exampleQ : exampleQ.Prime := by
  refine prime_of_certificate 3 33 [2, 3, 13] (by decide) ?_
    (by decide +kernel) (by decide +kernel) (by decide +kernel)
  simp only [List.forall_mem_cons]
  norm_num

theorem exactAt_exampleP : ExactAt exampleP := exactAt_of_prime prime_exampleP

theorem exactAt_exampleQ : ExactAt exampleQ := exactAt_of_prime prime_exampleQ

theorem not_prime_example : ¬ (exampleP * exampleQ).Prime :=
  Nat.not_prime_mul prime_exampleP.ne_one prime_exampleQ.ne_one

theorem exactAt_example : ExactAt (exampleP * exampleQ) := exactAt_of_not_prime not_prime_example (by decide +kernel)

/-- The product has exactly 256 bits. -/
theorem mul_example_mem : 2 ^ 255 ≤ exampleP * exampleQ ∧ exampleP * exampleQ < 2 ^ 256 := by decide

/-- So it is far from what can be squared. -/
theorem mul_example_lt : exampleP * exampleQ < 2 ^ 2048 := by
  refine Nat.lt_of_lt_of_le mul_example_mem.2 ?_
  rw [Nat.pow_le_pow_iff_right (by decide)]
  decide

end Paillier
