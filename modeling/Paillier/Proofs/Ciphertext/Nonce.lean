import Paillier.Proofs.Ciphertext.Homomorphic
import Paillier.Proofs.Key.Modulus

/-!
# What becomes of the nonces

Arithmetic on ciphertexts is arithmetic on their nonces too: they are multiplied, divided and raised to powers modulo
`N`, while the plaintexts are added, subtracted and scaled. So who has tracked both can open the result, and needs
nothing but the public key to check it. The results are equal as numbers, for every modulus that is accepted.

## Main statements

* `PublicKey.Sound.isEncryption_mod` — a number that is an encryption modulo `N²` is one after reduction.
* `PublicKey.nonce_of_operations` — the plaintext and the nonce of each result.
-/

namespace Paillier

open Residuosity

namespace PublicKey

/-- The number encrypts the integer `x` with the nonce `j`, in whatever form these two are written. -/
def IsEncryption (pk : PublicKey) (c : Number) (x : Int) (j : Nat) : Prop :=
  ∀ m r : Number, m.Denotes x → r.Denotes j → pk.encryptWithNonce m r = .ok c

variable {pk : PublicKey} {a : Number} {z : Int} {i j k l : Nat}

namespace Sound

/-- Plaintext and nonce are reduced modulo `N` as the number is modulo `N²`. -/
theorem isEncryption_mod (h : pk.Sound) (hk : (k : ZMod (pk.n * pk.n)) = encrypted pk.n z j)
    (hj : j.Coprime pk.n) : pk.IsEncryption (k % (pk.n * pk.n) : Nat) (z % pk.n) (j % pk.n) := by
  have hne : pk.n ≠ 0 := Nat.ne_of_gt h.pos
  have hpos : (0 : Int) < pk.n := by exact_mod_cast h.pos
  intro m r hm hr
  obtain ⟨w, hw⟩ := Int.eq_ofNat_of_zero_le (Int.emod_nonneg z (Int.ne_of_gt hpos))
  have hlt : w < pk.n := by
    have := Int.emod_lt_of_pos z hpos
    omega
  have hcop : (j % pk.n).Coprime pk.n := by
    rw [Nat.Coprime, (Nat.mod_modEq j pk.n).gcd_eq]
    exact hj
  have hnonce : pk.ValidNonce r (j % pk.n) := ⟨hr, h.one_le_of_coprime hcop, Nat.mod_lt j h.pos, hcop⟩
  rw [hw] at hm
  rw [h.encryptWithNonce_eq hm hlt hnonce]
  -- both sides are below N², so it is enough that they agree modulo N²
  congr 2
  rw [encryption_eq_iff hne (Nat.mod_lt k h.mul_self_pos), ZMod.natCast_mod, hk]
  refine encrypted_congr hne ?_ (Nat.mod_modEq j pk.n).symm
  rw [← hw]
  exact (Int.mod_modEq z pk.n).symm

theorem isEncryption_encryption (h : pk.Sound) (hk : k < pk.n) (hj : j < pk.n) (hcop : j.Coprime pk.n) :
    pk.IsEncryption (encryption pk.n k j : Nat) k j := by
  have hmod := h.isEncryption_mod (natCast_encryption_eq k j) hcop
  rwa [Nat.mod_eq_of_lt (encryption_lt (Nat.ne_of_gt h.pos) k j), Nat.mod_eq_of_lt hj,
    Int.emod_eq_of_lt (Int.natCast_nonneg k) (by exact_mod_cast hk)] at hmod

/-! ## The operations -/

/-- **Addition multiplies the nonces.** -/
theorem add_isEncryption (h : pk.Sound) (hi : i.Coprime pk.n) (hj : j.Coprime pk.n) :
    ∃ e, pk.add (encryption pk.n k i : Nat) (encryption pk.n l j : Nat) = .ok e ∧
      pk.IsEncryption e ((k + l) % pk.n) (i * j % pk.n) := by
  refine ⟨_, h.add_eq (h.validCiphertext_encryption hi) (h.validCiphertext_encryption hj), ?_⟩
  refine h.isEncryption_mod ?_ (hi.mul_left hj)
  rw [Nat.cast_mul, natCast_encryption_eq, natCast_encryption_eq, encrypted_mul]

/-- **Subtraction divides them.** The inverse modulo `N²` is the encryption with the inverse modulo `N`. -/
theorem sub_isEncryption (h : pk.Sound) (hi : i.Coprime pk.n) (hj : j.Coprime pk.n) {inv : Nat}
    (hinv : j * inv ≡ 1 [MOD pk.n]) :
    ∃ e, pk.sub (encryption pk.n k i : Nat) (encryption pk.n l j : Nat) = .ok e ∧
      pk.IsEncryption e ((k - l) % pk.n) (i * inv % pk.n) := by
  have hcop : inv.Coprime pk.n := Nat.coprime_of_mul_modEq_one j (by rwa [Nat.mul_comm])
  obtain ⟨e, hsub, -, hmul⟩ := h.sub_eq (h.validCiphertext_encryption (k := k) hi)
    (h.validCiphertext_encryption (k := l) hj)
  have hone := natCast_mul_eq_one hmul
  rw [natCast_encryption_eq] at hone
  have he : (e : ZMod (pk.n * pk.n)) = encrypted pk.n (-l) inv :=
    left_inv_eq_right_inv ((mul_comm _ _).trans hone) (encrypted_mul_neg (Nat.ne_of_gt h.pos) l hinv)
  refine ⟨_, hsub, h.isEncryption_mod ?_ (hi.mul_left hcop)⟩
  rw [Nat.cast_mul, natCast_encryption_eq, he, encrypted_mul, Int.sub_eq_add_neg]

/-- **Scaling raises the nonce to a power.** -/
theorem mulScalar_isEncryption (h : pk.Sound) (hi : i.Coprime pk.n) (ha : a.Denotes l) (hl : l < pk.n) :
    ∃ e, pk.mulScalar (encryption pk.n k i : Nat) a = .ok e ∧
      pk.IsEncryption e (k * l % pk.n) (i ^ l % pk.n) := by
  refine ⟨_, h.mulScalar_eq (h.validCiphertext_encryption hi) (h.checkPlaintext_eq_ok ha hl), ?_⟩
  rw [ha.magnitude_natCast]
  refine h.isEncryption_mod ?_ (hi.pow_left l)
  rw [Nat.cast_pow, natCast_encryption_eq, encrypted_pow]

end Sound

/-! ## Accepted moduli -/

/--
**The plaintext and the nonce of every result can be told from those of the operands.**

The two operands encrypt `x` with the nonce `i` and `y` with the nonce `j`. Nothing is asked of the factors of the
modulus, and no call fails. The inverse of `j` may be any of its inverses modulo `N`, of which there is one.
-/
theorem nonce_of_operations {n x y i j : Nat} (accepted : ofModulus n = .ok pk) (hx : x < n) (hy : y < n)
    (hi : (1 ≤ i ∧ i < n) ∧ i.Coprime n) (hj : (1 ≤ j ∧ j < n) ∧ j.Coprime n) :
    ∃ c d, pk.IsEncryption c x i ∧ pk.IsEncryption d y j ∧
      (∃ e, pk.add c d = .ok e ∧ pk.IsEncryption e ((x + y) % n) (i * j % n)) ∧
      ((∃ inv, (1 ≤ inv ∧ inv < n) ∧ j * inv ≡ 1 [MOD n]) ∧ ∀ inv, j * inv ≡ 1 [MOD n] →
        ∃ e, pk.sub c d = .ok e ∧ pk.IsEncryption e ((x - y) % n) (i * inv % n)) ∧
      ∀ (a : Number) (k : Nat), a.Denotes k → k < n →
        ∃ e, pk.mulScalar c a = .ok e ∧ pk.IsEncryption e (x * k % n) (i ^ k % n) := by
  obtain ⟨hsound, rfl⟩ := sound_of_ofModulus accepted
  obtain ⟨⟨-, hilt⟩, hicop⟩ := hi
  obtain ⟨⟨-, hjlt⟩, hjcop⟩ := hj
  refine ⟨_, _, hsound.isEncryption_encryption hx hilt hicop, hsound.isEncryption_encryption hy hjlt hjcop,
    hsound.add_isEncryption hicop hjcop, ⟨?_, fun inv hinv => hsound.sub_isEncryption hicop hjcop hinv⟩,
    fun a k ha hk => hsound.mulScalar_isEncryption hicop ha hk⟩
  obtain ⟨inv, -, hone, hlt, hmul⟩ := Residue.inverse?_eq_some hsound.one_lt hjcop
  exact ⟨inv, ⟨hone, hlt⟩, hmul⟩

/--
Modulo a power of three, the smaller plaintext comes first, so the difference wraps around. The inverse of the nonce
`4` is a quarter of the next multiple of four; the scalar is zero, which leaves the nonce one.
-/
theorem nonce_of_operations_primePower :
    ∃ pk, ofModulus (3 ^ 161 : Nat) = .ok pk ∧ (0 : Number).Denotes (0 : Nat) ∧
      4 * ((3 ^ 161 + 1) / 4) ≡ 1 [MOD 3 ^ 161] ∧
      ∃ c d e f, pk.IsEncryption c 2 2 ∧ pk.IsEncryption d 5 4 ∧
        pk.sub c d = .ok e ∧ pk.IsEncryption e (3 ^ 161 - 3 : Nat) ((3 ^ 161 + 1) / 2) ∧
        pk.mulScalar c 0 = .ok f ∧ pk.IsEncryption f 0 1 := by
  have hkey : ofModulus (3 ^ 161 : Nat) = .ok ⟨(3 ^ 161 : Nat)⟩ := ofModulus_powerOfThree
  have hzero : (0 : Number).Denotes (0 : Nat) := Number.denotes_ofNat 0
  have hinv : 4 * ((3 ^ 161 + 1) / 4) ≡ 1 [MOD 3 ^ 161] := by decide +kernel
  obtain ⟨c, d, hc, hd, -, ⟨-, hsub⟩, hmul⟩ := nonce_of_operations (x := 2) (y := 5) (i := 2) (j := 4) hkey
    (by decide +kernel) (by decide +kernel) (by decide +kernel) (by decide +kernel)
  obtain ⟨e, hsub, he⟩ := hsub _ hinv
  obtain ⟨f, hmul, hf⟩ := hmul 0 0 hzero (by decide +kernel)
  refine ⟨_, hkey, hzero, hinv, c, d, e, f, hc, hd, hsub, ?_, hmul, hf⟩
  exact he

end PublicKey

end Paillier
