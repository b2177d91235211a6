import Paillier.Ciphertext.Encryption
import Paillier.Proofs.Key.Sound
import Paillier.Proofs.Number.Residue
import Paillier.Proofs.Randomness.Spend
import Paillier.Proofs.Residuosity

/-!
# What encryption computes

For a sound key, encryption is `Residuosity.encryption`, with a nonce that the caller chooses or with one that is
drawn. A drawn nonce always passes the check that a chosen one has to pass.

## Main statements

* `PublicKey.Sound.encryptWithNonce_eq` — encryption with a chosen nonce.
* `PublicKey.Sound.yields_randomNonce` — what is drawn for a nonce.
* `PublicKey.Sound.spends_encrypt` — encryption with a drawn nonce costs the nonce and nothing else.
-/

namespace Paillier

open Number (positive)
open Residuosity

theorem ofNat_sign_ne_minus (x : Nat) : (x : Number).sign ≠ .minus := (Number.denotes_ofNat x).sign_ne_minus

namespace PublicKey

variable {pk : PublicKey} {c m r : Number}

end PublicKey

namespace PublicKey.Sound

variable {pk : PublicKey} {m r : Number} {k j : Nat}

theorem modulus_sign_ne_minus (h : pk.Sound) : pk.modulus.sign ≠ .minus :=
  Number.sign_ne_minus_of_eq_plus h.sign_eq

theorem encryptUnchecked_eq (h : pk.Sound) (hm : m.sign ≠ .minus) (hr : r.sign ≠ .minus) :
    pk.encryptUnchecked m r = .ok (encryption pk.n m.magnitude r.magnitude : Nat) := by
  have hodd := h.modulusSquared_odd
  have hsquare : pk.modulusSquared.magnitude = pk.n * pk.n := rfl
  rw [encryptUnchecked, Residue.mul_eq hm h.modulus_sign_ne_minus hodd, ok_bind,
    Residue.pow_eq hr h.modulus_sign_ne_minus hodd, ok_bind,
    Residue.add_eq (b := 1) (ofNat_sign_ne_minus _) (ofNat_sign_ne_minus 1),
    Residue.mul_eq (ofNat_sign_ne_minus _) (ofNat_sign_ne_minus _) hodd, hsquare]
  simp only [Number.magnitude_ofNat]
  rw [encryption, Nat.mod_add_mod, Nat.add_comm, ← Nat.mul_mod]
  rfl

/-- **Encryption with a nonce in range is `(1 + m * N) * r ^ N` modulo `N²`.** -/
theorem encryptWithNonce_eq (h : pk.Sound) (hm : m.Denotes k) (hk : k < pk.n) (hr : pk.ValidNonce r j) :
    pk.encryptWithNonce m r = .ok (encryption pk.n k j : Nat) := by
  rw [encryptWithNonce, h.checkPlaintext_eq_ok hm hk, ok_bind, hr.check_eq_ok h, ok_bind,
    h.encryptUnchecked_eq hm.sign_ne_minus hr.denotes.sign_ne_minus, hm.magnitude_natCast,
    hr.denotes.magnitude_natCast]

/-! ## Drawn nonces -/

theorem yields_drawNonce (h : pk.Sound) :
    pk.drawNonce.Yields pk.plaintextLength fun found => ∀ a ∈ found, ∃ j, pk.ValidNonce a j := by
  have hbelow := yields_randomBelow h.pos h.lt_capacity
  rw [← h.modulus_eq] at hbelow
  refine hbelow.bind ?_
  rintro _ ⟨j, hj, rfl⟩
  have hcoprime : isCoprime (positive j) pk.modulus = true ↔ j.Coprime pk.n := by
    rw [h.modulus_eq, isCoprime_iff h.pos]
    rfl
  split
  · next hunit =>
    refine Sampler.yields_pure ?_
    rintro a ⟨⟩
    have hcop := hcoprime.mp hunit
    exact ⟨j, Number.denotes_positive j, h.one_le_of_coprime hcop, hj, hcop⟩
  · exact (Sampler.yields_record _).bind fun _ _ => Sampler.yields_pure fun a ha => nomatch ha

/-- **A drawn nonce is a unit in `[1, N)`.** -/
theorem yields_randomNonce (h : pk.Sound) :
    pk.randomNonce.Yields pk.plaintextLength fun a => ∃ j, pk.ValidNonce a j :=
  Sampler.Yields.untilSome _ fun _ => h.yields_drawNonce

end PublicKey.Sound

namespace PublicKey

variable {pk : PublicKey} {m : Number} {k : Nat}

/-- Draws so many nonces and keeps none. -/
def drawNonces (pk : PublicKey) : Nat → Sampler Unit
  | 0 => pure ()
  | count + 1 => do
    let _ ← pk.randomNonce
    pk.drawNonces count

namespace Sound

/-- Nonces can be drawn as long as there is entropy. -/
theorem yields_drawNonces (h : pk.Sound) (count : Nat) :
    (pk.drawNonces count).Yields pk.plaintextLength fun _ => True := by
  induction count with
  | zero => exact Sampler.yields_pure trivial
  | succ count ih => exact h.yields_randomNonce.bind fun _ _ => ih

theorem spends_randomNonce (h : pk.Sound) :
    pk.randomNonce.Spends (pk.drawNonces 1) fun a => ∃ j, pk.ValidNonce a j :=
  Sampler.spends_self fun _ _ _ hrun => h.yields_randomNonce.of_runOn_eq_ok hrun

/-- **Encryption with a drawn nonce is encryption with one that could have been chosen**, at the price of a nonce. -/
theorem spends_encrypt (h : pk.Sound) (hm : pk.checkPlaintext m = .ok ()) :
    (pk.encrypt m).Spends (pk.drawNonces 1) fun c =>
      ∃ r j, pk.ValidNonce r j ∧ c = (encryption pk.n m.magnitude j : Nat) := by
  have hpair : (pk.encryptKeepingNonce m).Spends (pk.drawNonces 1) fun pair =>
      ∃ j, pk.ValidNonce pair.2 j ∧ pair.1 = (encryption pk.n m.magnitude j : Nat) := by
    refine Sampler.Spends.bind_outcome hm ?_
    refine h.spends_randomNonce.bind_free ?_
    rintro r ⟨j, hr⟩
    refine Sampler.Spends.bind_outcome
      (h.encryptUnchecked_eq (sign_ne_minus_of_checkPlaintext hm) hr.denotes.sign_ne_minus) ?_
    rw [hr.denotes.magnitude_natCast]
    exact Sampler.spends_pure ⟨j, hr, rfl⟩
  refine hpair.bind_free ?_
  rintro ⟨c, r⟩ ⟨j, hr, hc⟩
  exact Sampler.spends_pure ⟨r, j, hr, hc⟩

theorem yields_encrypt (h : pk.Sound) (hm : m.Denotes k) (hk : k < pk.n) :
    (pk.encrypt m).Yields pk.plaintextLength fun c =>
      ∃ r j, pk.ValidNonce r j ∧ c = (encryption pk.n k j : Nat) := by
  have hspends := h.spends_encrypt (h.checkPlaintext_eq_ok hm hk)
  rw [hm.magnitude_natCast] at hspends
  exact hspends.yields (h.yields_drawNonces 1)

end Sound

end PublicKey

/-! ## What a ciphertext holds -/

namespace PublicKey

/-- The number is a valid ciphertext in the class `m`. -/
def Holds (pk : PublicKey) (c : Number) (m : Int) : Prop :=
  ∃ k, pk.ValidCiphertext c k ∧ InClass pk.n k m

variable {pk : PublicKey} {c : Number} {k j : Nat}

theorem Sound.validCiphertext_encryption (h : pk.Sound) (hj : j.Coprime pk.n) :
    pk.ValidCiphertext (encryption pk.n k j : Nat) (encryption pk.n k j) where
  denotes := Number.denotes_ofNat _
  lt := encryption_lt (Nat.ne_of_gt h.pos) k j
  coprime := coprime_encryption k hj

theorem Sound.validCiphertext_mod (h : pk.Sound) (hk : k.Coprime pk.n) :
    pk.ValidCiphertext (k % (pk.n * pk.n) : Nat) (k % (pk.n * pk.n)) where
  denotes := Number.denotes_ofNat _
  lt := Nat.mod_lt _ h.mul_self_pos
  coprime := coprime_mod_mul_self_iff.mpr hk

theorem Sound.holds_encryption (h : pk.Sound) (hj : j.Coprime pk.n) :
    pk.Holds (encryption pk.n k j : Nat) k :=
  ⟨_, h.validCiphertext_encryption hj, inClass_encryption k hj⟩

theorem Holds.check_eq_ok {m : Int} (hc : pk.Holds c m) (h : pk.Sound) : pk.checkCiphertext c = .ok () := by
  obtain ⟨k, hk, -⟩ := hc
  exact hk.check_eq_ok h

theorem Holds.congr {m y : Int} (h : pk.Sound) (hc : pk.Holds c m) (heq : m ≡ y [ZMOD pk.n]) :
    pk.Holds c y := by
  obtain ⟨k, hk, hclass⟩ := hc
  exact ⟨k, hk, hclass.congr (Nat.ne_of_gt h.pos) heq⟩

end PublicKey

end Paillier
