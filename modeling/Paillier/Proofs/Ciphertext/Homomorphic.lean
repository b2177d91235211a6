import Paillier.Ciphertext.Homomorphic
import Paillier.Proofs.Ciphertext.Encryption

/-!
# What arithmetic on ciphertexts computes

Ciphertexts are multiplied, divided and raised to powers modulo `N²`. The operands are units in `[0, N²)`, as the
checks have it, and so is every result; no operation fails on them. The class of the result is the sum, the
difference or the multiple of the classes.

## Main statements

* `PublicKey.Sound.add_eq`, `sub_eq`, `mulScalar_eq` — the operations that draw nothing.
* `PublicKey.Sound.spends_addScalar`, `spends_subScalar` — the operations that mask anew, at the price of a nonce.
* `PublicKey.Holds.add`, `sub`, `mulScalar`, `addScalar`, `subScalar` — what they do to the classes.
-/

namespace Paillier

open Residuosity

namespace PublicKey

variable {pk : PublicKey} {c d a : Number} {k l : Nat}

/-! ## The operations -/

/-- Without a sign there is no inverse. -/
theorem invertCiphertext_eq_refuse (hc : c.sign = .none) : pk.invertCiphertext c = refuse .notInvertible := by
  rw [invertCiphertext, Residue.inverse?, if_pos (Or.inl hc)]

namespace Sound

theorem mul_eq (h : pk.Sound) (hc : pk.ValidCiphertext c k) (hd : pk.ValidCiphertext d l) :
    Residue.mul c d pk.modulusSquared = .ok (k * l % (pk.n * pk.n) : Nat) := by
  rw [Residue.mul_eq hc.denotes.sign_ne_minus hd.denotes.sign_ne_minus h.modulusSquared_odd,
    hc.denotes.magnitude_natCast, hd.denotes.magnitude_natCast]
  rfl

/-- **The sum is held by the product.** -/
theorem add_eq (h : pk.Sound) (hc : pk.ValidCiphertext c k) (hd : pk.ValidCiphertext d l) :
    pk.add c d = .ok (k * l % (pk.n * pk.n) : Nat) := by
  rw [add, hc.check_eq_ok h, ok_bind, hd.check_eq_ok h, ok_bind, h.mul_eq hc hd]

/-- **Every valid ciphertext has an inverse modulo `N²`, which is valid.** -/
theorem invertCiphertext_eq (h : pk.Sound) (hc : pk.ValidCiphertext c k) :
    ∃ i, pk.invertCiphertext c = .ok (i : Nat) ∧ pk.ValidCiphertext (i : Nat) i ∧
      k * i ≡ 1 [MOD pk.n * pk.n] := by
  obtain ⟨i, hi, hpos, hlt, hmul⟩ :=
    Residue.inverse?_eq_some h.one_lt_mul_self (Nat.Coprime.mul_right hc.coprime hc.coprime)
  refine ⟨i, ?_, ⟨Number.denotes_ofNat i, hlt, ?_⟩, hmul⟩
  · rw [invertCiphertext, hc.denotes.eq_positive (h.one_le_of_coprime hc.coprime), h.modulusSquared_eq, hi,
      Number.ofNat_of_pos hpos]
  · exact Nat.coprime_of_mul_modEq_one k (by rw [Nat.mul_comm]; exact hmul.of_mul_right pk.n)

/-- **The difference is held by the quotient.** -/
theorem sub_eq (h : pk.Sound) (hc : pk.ValidCiphertext c k) (hd : pk.ValidCiphertext d l) :
    ∃ i, pk.sub c d = .ok (k * i % (pk.n * pk.n) : Nat) ∧ pk.ValidCiphertext (i : Nat) i ∧
      l * i ≡ 1 [MOD pk.n * pk.n] := by
  obtain ⟨i, hi, hvalid, hmul⟩ := h.invertCiphertext_eq hd
  refine ⟨i, ?_, hvalid, hmul⟩
  rw [sub, hc.check_eq_ok h, ok_bind, hd.check_eq_ok h, ok_bind, hi, ok_bind, h.mul_eq hc hvalid]

/-- **The multiple is held by the power.** -/
theorem mulScalar_eq (h : pk.Sound) (hc : pk.ValidCiphertext c k) (ha : pk.checkPlaintext a = .ok ()) :
    pk.mulScalar c a = .ok (k ^ a.magnitude % (pk.n * pk.n) : Nat) := by
  rw [mulScalar, hc.check_eq_ok h, ok_bind, ha, ok_bind,
    Residue.pow_eq hc.denotes.sign_ne_minus (sign_ne_minus_of_checkPlaintext ha) h.modulusSquared_odd,
    hc.denotes.magnitude_natCast]
  rfl

theorem spends_addScalar (h : pk.Sound) (hc : pk.ValidCiphertext c k) (ha : pk.checkPlaintext a = .ok ()) :
    (pk.addScalar c a).Spends (pk.drawNonces 1) fun e =>
      ∃ j : Nat, j.Coprime pk.n ∧ e = (k * encryption pk.n a.magnitude j % (pk.n * pk.n) : Nat) := by
  refine Sampler.Spends.bind_outcome (hc.check_eq_ok h) ?_
  refine Sampler.Spends.bind_outcome ha ?_
  refine (h.spends_encrypt ha).bind_free ?_
  rintro _ ⟨r, j, hr, rfl⟩
  exact Sampler.spends_outcome (h.mul_eq hc (h.validCiphertext_encryption hr.coprime)) ⟨j, hr.coprime, rfl⟩

theorem spends_subScalar (h : pk.Sound) (hc : pk.ValidCiphertext c k) (ha : pk.checkPlaintext a = .ok ()) :
    (pk.subScalar c a).Spends (pk.drawNonces 1) fun e =>
      ∃ j i : Nat, j.Coprime pk.n ∧ e = (k * i % (pk.n * pk.n) : Nat) ∧ pk.ValidCiphertext (i : Nat) i ∧
        encryption pk.n a.magnitude j * i ≡ 1 [MOD pk.n * pk.n] := by
  refine Sampler.Spends.bind_outcome (hc.check_eq_ok h) ?_
  refine Sampler.Spends.bind_outcome ha ?_
  refine (h.spends_encrypt ha).bind_free ?_
  rintro _ ⟨r, j, hr, rfl⟩
  obtain ⟨i, hi, hvalid, hmul⟩ := h.invertCiphertext_eq (h.validCiphertext_encryption hr.coprime)
  refine Sampler.Spends.bind_outcome hi ?_
  exact Sampler.spends_outcome (h.mul_eq hc hvalid) ⟨j, i, hr.coprime, rfl, hvalid, hmul⟩

end Sound

/-! ## The classes -/

namespace Holds

variable {m y : Int}

/-- The product of valid ciphertexts is valid, in the sum of their classes. -/
theorem of_mul (h : pk.Sound) (hk : pk.ValidCiphertext c k) (hl : pk.ValidCiphertext d l)
    (hm : InClass pk.n k m) (hy : InClass pk.n l y) :
    pk.Holds (k * l % (pk.n * pk.n) : Nat) (m + y) := by
  refine ⟨_, h.validCiphertext_mod (hk.coprime.mul_left hl.coprime), ?_⟩
  rw [ZMod.natCast_mod, Nat.cast_mul]
  exact hm.mul hy

/-- The product with an inverse is valid, in the difference of the classes. -/
theorem of_mul_inverse (h : pk.Sound) {i : Nat} (hk : pk.ValidCiphertext c k)
    (hi : pk.ValidCiphertext (i : Nat) i) (hm : InClass pk.n k m) (hy : InClass pk.n l y)
    (hmul : l * i ≡ 1 [MOD pk.n * pk.n]) : pk.Holds (k * i % (pk.n * pk.n) : Nat) (m - y) := by
  rw [Int.sub_eq_add_neg]
  exact of_mul h hk hi hm (hy.of_mul_eq_one (natCast_mul_eq_one hmul))

/-- **Addition adds.** -/
theorem add (h : pk.Sound) (hc : pk.Holds c m) (hd : pk.Holds d y) :
    ∃ e, pk.add c d = .ok e ∧ pk.Holds e (m + y) := by
  obtain ⟨k, hk, hm⟩ := hc
  obtain ⟨l, hl, hy⟩ := hd
  exact ⟨_, h.add_eq hk hl, of_mul h hk hl hm hy⟩

/-- **Subtraction subtracts.** -/
theorem sub (h : pk.Sound) (hc : pk.Holds c m) (hd : pk.Holds d y) :
    ∃ e, pk.sub c d = .ok e ∧ pk.Holds e (m - y) := by
  obtain ⟨k, hk, hm⟩ := hc
  obtain ⟨l, hl, hy⟩ := hd
  obtain ⟨i, hsub, hi, hmul⟩ := h.sub_eq hk hl
  exact ⟨_, hsub, of_mul_inverse h hk hi hm hy hmul⟩

/-- **Scaling scales.** -/
theorem mulScalar (h : pk.Sound) (hc : pk.Holds c m) (ha : pk.checkPlaintext a = .ok ()) :
    ∃ e, pk.mulScalar c a = .ok e ∧ pk.Holds e (m * a.magnitude) := by
  obtain ⟨k, hk, hm⟩ := hc
  refine ⟨_, h.mulScalar_eq hk ha, _, h.validCiphertext_mod (hk.coprime.pow_left a.magnitude), ?_⟩
  rw [ZMod.natCast_mod, Nat.cast_pow]
  exact hm.pow a.magnitude

/-- **Adding a scalar adds it.** -/
theorem addScalar (h : pk.Sound) (hc : pk.Holds c m) (ha : pk.checkPlaintext a = .ok ()) :
    (pk.addScalar c a).Spends (pk.drawNonces 1) fun e => pk.Holds e (m + a.magnitude) := by
  obtain ⟨k, hk, hm⟩ := hc
  refine (h.spends_addScalar hk ha).mono ?_
  rintro _ ⟨j, hj, rfl⟩
  exact of_mul h hk (h.validCiphertext_encryption hj) hm (inClass_encryption _ hj)

/-- **Subtracting a scalar subtracts it.** -/
theorem subScalar (h : pk.Sound) (hc : pk.Holds c m) (ha : pk.checkPlaintext a = .ok ()) :
    (pk.subScalar c a).Spends (pk.drawNonces 1) fun e => pk.Holds e (m - a.magnitude) := by
  obtain ⟨k, hk, hm⟩ := hc
  refine (h.spends_subScalar hk ha).mono ?_
  rintro _ ⟨j, i, hj, rfl, hi, hmul⟩
  exact of_mul_inverse h hk hi hm (inClass_encryption _ hj) hmul

end Holds

end PublicKey

end Paillier
