import Paillier.Proofs.Key.Sound
import Paillier.Proofs.Number.Arithmetic
import Paillier.Proofs.Number.Primality

/-!
# Which numbers make a public key

A number makes a public key iff it has at least 256 bits, is odd, fails the primality test and can be squared. A key
made of a positive number is sound; nothing is assumed of the primality test for that.

## Main statements

* `PublicKey.ofModulus_eq_ok_iff` — the conditions, and the key.
* `PublicKey.exists_ofModulus_iff` — if the test is right about the number, it has to be composite.
* `PublicKey.sound_of_ofModulus` — a key that was accepted is sound.
-/

namespace Paillier

open Number (positive)

/-! ## Lengths -/

theorem mul_self_lt_two_pow_iff {n k : Nat} : n * n < 2 ^ (2 * k) ↔ n < 2 ^ k := by
  rw [Nat.two_mul, Nat.pow_add, Nat.mul_self_lt_mul_self_iff]

/-- A modulus can be squared iff it has at most 2048 bits. -/
theorem mul_self_lt_capacity_iff {n : Nat} : n * n < 2 ^ capacityBits ↔ n < 2 ^ 2048 := by
  rw [show capacityBits = 2 * 2048 from rfl, mul_self_lt_two_pow_iff]

theorem bitLength_lt_minKeyBits_iff {n : Nat} : bitLength n < minKeyBits ↔ n < 2 ^ 255 := by
  rw [minKeyBits, Nat.lt_succ_iff, bitLength_le_iff]

/-! ## Accepted numbers -/

namespace PublicKey

variable {pk : PublicKey} {n : Nat}

theorem ofModulusUnchecked_eq_ok_iff {a : Number} :
    ofModulusUnchecked a = .ok pk ↔ a.magnitude * a.magnitude < 2 ^ capacityBits ∧ pk = ⟨a⟩ := by
  rw [ofModulusUnchecked, bind_eq_ok]
  constructor
  · rintro ⟨square, hsquare, hpk⟩
    obtain ⟨hfits, -⟩ := bounded_eq_ok_iff.mp hsquare
    cases hpk
    exact ⟨fits_iff.mp hfits, rfl⟩
  · rintro ⟨hfits, rfl⟩
    exact ⟨_, bounded_eq_ok (fits_iff.mpr hfits), rfl⟩

/-- **The conditions on a modulus.** They are checked by magnitude; the key keeps the sign. -/
theorem ofModulus_eq_ok_iff {a : Number} :
    ofModulus a = .ok pk ↔ 2 ^ 255 ≤ a.magnitude ∧ a.magnitude % 2 = 1 ∧ isPrime a.magnitude = false ∧
      a.magnitude * a.magnitude < 2 ^ capacityBits ∧ pk = ⟨a⟩ := by
  have hodd : ¬ a.magnitude % 2 = 0 ↔ a.magnitude % 2 = 1 := by omega
  rw [ofModulus, ite_refuse_eq_ok, ite_refuse_eq_ok, bitLength_lt_minKeyBits_iff, Nat.not_lt, not_or, hodd,
    Bool.not_eq_true, ofModulusUnchecked_eq_ok_iff, and_assoc]

theorem eq_of_ofModulus {a : Number} (h : ofModulus a = .ok pk) : pk = ⟨a⟩ := by
  obtain ⟨-, -, -, -, hpk⟩ := ofModulus_eq_ok_iff.mp h
  exact hpk

theorem modulus_eq_of_ofModulus (h : ofModulus n = .ok pk) : pk.modulus = n := by rw [eq_of_ofModulus h]

/-- Zero is refused however it is written, and other magnitudes are written in one way. -/
theorem ofModulus_positive (n : Nat) : ofModulus (positive n) = ofModulus n := by
  rcases Nat.eq_zero_or_pos n with rfl | hpos
  · rfl
  · rw [Number.ofNat_of_pos hpos]

/-- **If the primality test is right about it, a modulus is accepted iff it is odd, composite and long enough**, and not
too long to be squared. -/
theorem exists_ofModulus_number_iff {a : Number} (ha : ExactAt a.magnitude) :
    (∃ pk, ofModulus a = .ok pk) ↔
      a.magnitude % 2 = 1 ∧ ¬ a.magnitude.Prime ∧ 2 ^ 255 ≤ a.magnitude ∧ a.magnitude < 2 ^ 2048 := by
  simp only [ofModulus_eq_ok_iff, ha.eq_false_iff, mul_self_lt_capacity_iff]
  exact ⟨fun ⟨_, hlong, hodd, hcomposite, hsize, _⟩ => ⟨hodd, hcomposite, hlong, hsize⟩,
    fun ⟨hodd, hcomposite, hlong, hsize⟩ => ⟨_, hlong, hodd, hcomposite, hsize, rfl⟩⟩

theorem exists_ofModulus_iff (hsize : n < 2 ^ 2048) (hexact : ExactAt n) :
    (∃ pk, ofModulus n = .ok pk) ↔ n % 2 = 1 ∧ ¬ n.Prime ∧ 2 ^ 255 ≤ n := by
  have hiff := exists_ofModulus_number_iff (a := n) (by rwa [Number.magnitude_ofNat])
  rw [Number.magnitude_ofNat] at hiff
  rw [hiff]
  exact ⟨fun ⟨hodd, hcomposite, hlong, _⟩ => ⟨hodd, hcomposite, hlong⟩,
    fun ⟨hodd, hcomposite, hlong⟩ => ⟨hodd, hcomposite, hlong, hsize⟩⟩

/-- The product of the two primes of the example makes a key. -/
theorem exists_ofModulus_example : ∃ pk, ofModulus (exampleP * exampleQ : Nat) = .ok pk :=
  (exists_ofModulus_iff mul_example_lt exactAt_example).mpr ⟨by decide, not_prime_example, mul_example_mem.1⟩

/-- A power of three makes a key as well: nothing is asked of the factors of a modulus. -/
theorem ofModulus_powerOfThree : ofModulus (3 ^ 161 : Nat) = .ok ⟨(3 ^ 161 : Nat)⟩ :=
  ofModulus_eq_ok_iff.mpr ⟨by decide +kernel, by decide +kernel, by decide +kernel, by decide +kernel, rfl⟩

/-- What is known of a positive modulus that was accepted. -/
theorem modulus_of_ofModulus (h : ofModulus n = .ok pk) :
    pk = ⟨positive n⟩ ∧ 2 ^ 255 ≤ n ∧ n < 2 ^ 2048 := by
  obtain ⟨hlong, -, -, hfits, hpk⟩ := ofModulus_eq_ok_iff.mp h
  rw [Number.magnitude_ofNat] at hlong hfits
  rw [Number.ofNat_of_pos (Nat.lt_of_lt_of_le (Nat.two_pow_pos 255) hlong)] at hpk
  exact ⟨hpk, hlong, mul_self_lt_capacity_iff.mp hfits⟩

/-- **A key of a positive modulus that was accepted is sound.** -/
theorem sound_of_ofModulus (h : ofModulus n = .ok pk) : pk.Sound ∧ pk.n = n := by
  obtain ⟨hlong, hodd, -, hfits, -⟩ := ofModulus_eq_ok_iff.mp h
  rw [Number.magnitude_ofNat] at hlong hodd hfits
  obtain ⟨rfl, -, -⟩ := modulus_of_ofModulus h
  refine ⟨⟨rfl, hodd, ?_, hfits⟩, rfl⟩
  exact Nat.lt_of_lt_of_le (by decide) hlong

end PublicKey

end Paillier
