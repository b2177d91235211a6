import Mathlib.Data.Nat.Totient
import Paillier.Key.Private
import Paillier.Proofs.Number.Denotation

/-!
# Sound keys

What encryption, decryption and arithmetic on ciphertexts need of a key, and no more. The modulus is odd,
has a plus and is small enough to be squared; for a private key, `λ` is Euler's function of `N` and `μ`
inverts it modulo `N`. Where the primes are, and that there are two of them, does not matter.

## Main statements

* `PublicKey.Sound.checkPlaintext_eq`, `checkNonce_eq`, `checkCiphertext_eq` — what a sound key accepts, as
  a condition on integers.
* `PublicKey.Sound.checkCiphertext_eq_of_isSigned`, `checkCiphertext_eq_ok_of_sign_none` — as a ciphertext, a number
  with a sign is judged by its value, and a unit without a sign is accepted at any size.
* `PrivateKey.Sound.coprime_totient` — `λ` and `N` have no common factor.
-/

namespace Paillier

/-! ## Public keys -/

namespace PublicKey

/-- The modulus `N` as a natural number. -/
abbrev n (pk : PublicKey) : Nat := pk.modulus.magnitude

/-- The modulus is odd, has a plus, and its square can be held. -/
structure Sound (pk : PublicKey) : Prop where
  sign_eq : pk.modulus.sign = .plus
  odd : pk.n % 2 = 1
  one_lt : 1 < pk.n
  fits : pk.n * pk.n < 2 ^ capacityBits

variable {pk : PublicKey} {c m : Number}

theorem checkPlaintext_eq_ite (pk : PublicKey) (m : Number) :
    pk.checkPlaintext m = if 0 ≤ m ∧ m < pk.modulus then .ok () else refuse .invalidPlaintext := by
  simp only [checkPlaintext, isResidue_iff]

/-- Plaintexts and scalars are the numbers in `[0, N)`, whatever their form. -/
theorem checkPlaintext_eq_ok_iff : pk.checkPlaintext m = .ok () ↔ 0 ≤ m ∧ m < pk.modulus := by
  rw [checkPlaintext_eq_ite]
  split
  · next hrange => exact iff_of_true rfl hrange
  · next hrange => exact iff_of_false refuse_ne_ok hrange

theorem sign_ne_minus_of_checkPlaintext (hm : pk.checkPlaintext m = .ok ()) : m.sign ≠ .minus :=
  Number.sign_ne_minus_of_nonneg (checkPlaintext_eq_ok_iff.mp hm).1

theorem checkCiphertext_eq_ok_iff :
    pk.checkCiphertext c = .ok () ↔ isResidue c pk.modulusSquared = true ∧ isCoprime c pk.modulus = true := by
  unfold checkCiphertext
  split
  · next hunit => exact iff_of_true rfl (Bool.and_eq_true_iff.mp hunit)
  · next hunit => exact iff_of_false refuse_ne_ok fun h => hunit (Bool.and_eq_true_iff.mpr h)

theorem checkCiphertext_eq_refuse (h : pk.checkCiphertext c ≠ .ok ()) :
    pk.checkCiphertext c = refuse .invalidCiphertext := by
  unfold checkCiphertext at h ⊢
  split
  · next hvalid => exact absurd (if_pos hvalid) h
  · rfl

/-- A minus passes no check, as the lower bound is the first thing that is looked at. -/
theorem sign_ne_minus_of_checkCiphertext (h : pk.checkCiphertext c = .ok ()) : c.sign ≠ .minus :=
  Number.sign_ne_minus_of_nonneg (isResidue_iff.mp (checkCiphertext_eq_ok_iff.mp h).1).1

namespace Sound

theorem pos (h : pk.Sound) : 0 < pk.n := Nat.lt_trans Nat.zero_lt_one h.one_lt

theorem modulus_eq (h : pk.Sound) : pk.modulus = .positive pk.n := by
  have hsign := h.sign_eq
  obtain ⟨⟨sign, n⟩⟩ := pk
  cases hsign
  rfl

theorem modulusSquared_eq (h : pk.Sound) : pk.modulusSquared = .positive (pk.n * pk.n) := by
  rw [modulusSquared, h.sign_eq]
  rfl

theorem modulusSquared_odd (h : pk.Sound) : pk.modulusSquared.magnitude % 2 = 1 := by
  rw [h.modulusSquared_eq]
  show pk.n * pk.n % 2 = 1
  rw [Nat.mul_mod, h.odd]

theorem mul_self_pos (h : pk.Sound) : 0 < pk.n * pk.n := Nat.mul_pos h.pos h.pos

theorem one_lt_mul_self (h : pk.Sound) : 1 < pk.n * pk.n := Nat.one_lt_mul_iff.mpr ⟨h.pos, h.pos, .inl h.one_lt⟩

theorem lt_capacity (h : pk.Sound) : pk.n < 2 ^ capacityBits :=
  Nat.lt_of_le_of_lt (Nat.le_mul_self _) h.fits

/-- Zero shares the factor `N`. -/
theorem one_le_of_coprime (h : pk.Sound) {j : Nat} (hj : j.Coprime pk.n) : 1 ≤ j := by
  rcases Nat.eq_zero_or_pos j with rfl | hpos
  · rw [Nat.coprime_zero_left] at hj
    exact absurd hj (Nat.ne_of_gt h.one_lt)
  · exact hpos

/-! ## What a sound key accepts -/

variable {a : Number} {z : Int}

theorem checkPlaintext_eq (h : pk.Sound) (ha : a.Denotes z) :
    pk.checkPlaintext a = if 0 ≤ z ∧ z < pk.n then .ok () else refuse .invalidPlaintext := by
  rw [checkPlaintext, h.modulus_eq]
  simp only [ha.isResidue_iff h.pos]

theorem checkNonce_eq (h : pk.Sound) (ha : a.Denotes z) :
    pk.checkNonce a =
      if (1 ≤ z ∧ z < pk.n) ∧ Int.gcd z pk.n = 1 then .ok () else refuse .invalidRandomness := by
  rw [checkNonce, h.modulus_eq]
  simp only [Bool.and_eq_true, ha.isNonzeroResidue_iff h.pos, ha.isCoprime_iff h.pos]

theorem checkCiphertext_eq (h : pk.Sound) (ha : a.Denotes z) :
    pk.checkCiphertext a =
      if (0 ≤ z ∧ z < (pk.n * pk.n : Nat)) ∧ Int.gcd z pk.n = 1 then .ok ()
      else refuse .invalidCiphertext := by
  rw [checkCiphertext, h.modulus_eq, h.modulusSquared_eq]
  simp only [Bool.and_eq_true, ha.isResidue_iff h.mul_self_pos, ha.isCoprime_iff h.pos]

theorem checkPlaintext_eq_ok (h : pk.Sound) {k : Nat} (ha : a.Denotes k) (hk : k < pk.n) :
    pk.checkPlaintext a = .ok () := by
  rw [h.checkPlaintext_eq ha, if_pos (by omega)]

/-- Whatever the sign of a ciphertext is, its magnitude is a unit. -/
theorem coprime_of_checkCiphertext (h : pk.Sound) (hc : pk.checkCiphertext c = .ok ()) :
    c.magnitude.Coprime pk.n := by
  have hcoprime := (checkCiphertext_eq_ok_iff.mp hc).2
  rw [h.modulus_eq] at hcoprime
  exact (isCoprime_iff h.pos).mp hcoprime

/--
**For a number with a sign, acceptance depends on its value alone.** A zero with a minus is refused like any other
zero.
-/
theorem checkCiphertext_eq_of_isSigned (h : pk.Sound) (ha : a.IsSigned) :
    pk.checkCiphertext a =
      if (0 ≤ a.toInt ∧ a.toInt < (pk.n * pk.n : Nat)) ∧ Int.gcd a.toInt pk.n = 1 then .ok ()
      else refuse .invalidCiphertext := by
  by_cases hzero : a = .negative 0
  · have hgcd : Int.gcd (0 : Int) pk.n ≠ 1 := by
      rw [Int.gcd_zero_left, Int.natAbs_natCast]
      exact Nat.ne_of_gt h.one_lt
    rw [hzero, show (Number.negative 0).toInt = 0 from rfl, if_neg fun hunit => hgcd hunit.2, checkCiphertext,
      isResidue]
    rfl
  · exact h.checkCiphertext_eq (ha.denotes hzero)

end Sound

/-! ## Valid nonces and ciphertexts -/

/-- The number is written for the unit `j` in `[1, N)`. -/
structure ValidNonce (pk : PublicKey) (r : Number) (j : Nat) : Prop where
  denotes : r.Denotes j
  one_le : 1 ≤ j
  lt : j < pk.n
  coprime : j.Coprime pk.n

/-- The number is written for the unit `k` in `[0, N²)`. -/
structure ValidCiphertext (pk : PublicKey) (c : Number) (k : Nat) : Prop where
  denotes : c.Denotes k
  lt : k < pk.n * pk.n
  coprime : k.Coprime pk.n

variable {pk : PublicKey} {c r : Number} {j k : Nat}

theorem ValidNonce.check_eq_ok (hr : pk.ValidNonce r j) (h : pk.Sound) : pk.checkNonce r = .ok () := by
  have hone := hr.one_le
  have hlt := hr.lt
  have hunit : ((1 : Int) ≤ j ∧ (j : Int) < pk.n) ∧ Int.gcd j pk.n = 1 := by
    refine ⟨by omega, ?_⟩
    rw [Int.gcd_natCast_natCast]
    exact hr.coprime
  rw [h.checkNonce_eq hr.denotes, if_pos hunit]

theorem ValidCiphertext.check_eq_ok (hc : pk.ValidCiphertext c k) (h : pk.Sound) :
    pk.checkCiphertext c = .ok () := by
  have hlt := hc.lt
  have hunit : ((0 : Int) ≤ k ∧ (k : Int) < (pk.n * pk.n : Nat)) ∧ Int.gcd k pk.n = 1 := by
    refine ⟨by omega, ?_⟩
    rw [Int.gcd_natCast_natCast]
    exact hc.coprime
  rw [h.checkCiphertext_eq hc.denotes, if_pos hunit]

/-- A number whose value is a unit in `[0, N²)` is written for it. -/
theorem Sound.exists_validCiphertext_of_unit (h : pk.Sound) (hc : c.IsSigned)
    (hunit : (0 ≤ c.toInt ∧ c.toInt < (pk.n * pk.n : Nat)) ∧ Int.gcd c.toInt pk.n = 1) :
    ∃ k, pk.ValidCiphertext c k := by
  obtain ⟨⟨hnonneg, hlt⟩, hcop⟩ := hunit
  obtain ⟨k, hk⟩ := Int.eq_ofNat_of_zero_le hnonneg
  rw [hk] at hlt hcop
  have hne : c ≠ .negative 0 := by
    rintro rfl
    obtain rfl : k = 0 := by simpa [Number.negative, Number.toInt] using hk.symm
    exact absurd (h.one_le_of_coprime hcop) (by decide)
  exact ⟨k, hk ▸ hc.denotes hne, by omega, hcop⟩

/-- Of the numbers with a sign exactly the units in `[0, N²)` are accepted. -/
theorem Sound.exists_validCiphertext (h : pk.Sound) (hc : c.IsSigned) (hcheck : pk.checkCiphertext c = .ok ()) :
    ∃ k, pk.ValidCiphertext c k := by
  rw [h.checkCiphertext_eq_of_isSigned hc] at hcheck
  split at hcheck
  · next hunit => exact h.exists_validCiphertext_of_unit hc hunit
  · cases hcheck

end PublicKey

/-! ## Private keys -/

/-- The public half is sound, `λ` is Euler's function of the modulus, and `μ` inverts it. -/
structure PrivateKey.Sound (sk : PrivateKey) : Prop where
  publicKey : sk.publicKey.Sound
  lambda_sign : sk.lambda.sign = .plus
  lambda_eq : sk.lambda.magnitude = Nat.totient sk.publicKey.n
  mu_sign : sk.mu.sign = .plus
  lambda_mul_mu : Nat.totient sk.publicKey.n * sk.mu.magnitude ≡ 1 [MOD sk.publicKey.n]

/-- A number that has an inverse has no factor in common with the modulus. -/
theorem PrivateKey.Sound.coprime_totient {sk : PrivateKey} (h : sk.Sound) :
    (Nat.totient sk.publicKey.n).Coprime sk.publicKey.n :=
  Nat.coprime_of_mul_modEq_one _ h.lambda_mul_mu

end Paillier
