import Paillier.Proofs.Key.Acceptance

/-!
# Primes with a sign in front

A form that spells signs out can put a minus in front of a prime. The conditions on a key are conditions on the
magnitudes, so a pair that makes a key makes one with every choice of signs, and all the numbers of that key are the
usual expressions in the two integers. Without a sign on both there is no key: nothing has an inverse modulo a product
without a sign.

## Main statements

* `PrivateKey.exists_ofPrimes_iff` — the conditions on two numbers, whatever their signs.
* `PrivateKey.isKeyOfIntegers_of_ofPrimes` — what the key holds.
-/

namespace Paillier

open Number (ofInt)

/-- All numbers of the key are derived from the integers `x` and `y`. -/
structure PrivateKey.IsKeyOfIntegers (sk : PrivateKey) (x y : Int) : Prop where
  p_eq : sk.p = ofInt x
  q_eq : sk.q = ofInt y
  modulus_eq : sk.publicKey.modulus = ofInt (x * y)
  lambda_eq : sk.lambda = ofInt ((x - 1) * (y - 1))
  mu_eq : sk.mu = ofInt sk.mu.toInt
  one_le_mu : 1 ≤ sk.mu.toInt.natAbs
  mu_lt : sk.mu.toInt.natAbs < (x * y).natAbs
  mu_pos_iff : 0 < sk.mu.toInt ↔ 0 < (x - 1) * (y - 1)
  lambda_mul_mu : (x - 1) * (y - 1) * sk.mu.toInt ≡ 1 [ZMOD x * y]

/-! ## Putting the parts together -/

/-- **Whatever the signs are, the modulus is `x * y` and `λ` is `(x - 1) * (y - 1)`**, if the modulus can be squared. -/
theorem PrivateKey.ofPrimesUnchecked_eq_ofParts {x y : Int} (hx : 3 ≤ x.natAbs) (hy : 3 ≤ y.natAbs)
    (hfits : x.natAbs * y.natAbs * (x.natAbs * y.natAbs) < 2 ^ capacityBits) :
    ofPrimesUnchecked (ofInt x) (ofInt y) =
      ofParts (ofInt x) (ofInt y) (ofInt (x * y)) (ofInt ((x - 1) * (y - 1))) := by
  have habs : (x * y).natAbs = x.natAbs * y.natAbs := Int.natAbs_mul x y
  have hsize : 4 * (x.natAbs * y.natAbs) < 2 ^ capacityBits := by
    refine Nat.lt_of_le_of_lt (Nat.mul_le_mul_right _ ?_) hfits
    exact Nat.le_trans (by decide) (Nat.mul_le_mul hx hy)
  rw [ofPrimesUnchecked, product_ofInt (by omega) (by omega), bounded_ofInt (by omega), ok_bind,
    totient_ofInt hx hy hsize, ok_bind]

namespace PrimePair

variable {x y : Int}

theorem left_ne_zero (h : PrimePair x.natAbs y.natAbs) : x ≠ 0 := Int.natAbs_ne_zero.mp h.prime_p.ne_zero

theorem right_ne_zero (h : PrimePair x.natAbs y.natAbs) : y ≠ 0 := Int.natAbs_ne_zero.mp h.prime_q.ne_zero

/-- **With every choice of signs `λ` has an inverse.** -/
theorem inverse?_totient (h : PrimePair x.natAbs y.natAbs) :
    ∃ mu : Int, Residue.inverse? (ofInt ((x - 1) * (y - 1))) (ofInt (x * y)) = some (ofInt mu) ∧
      1 ≤ mu.natAbs ∧ mu.natAbs < (x * y).natAbs ∧ (0 < mu ↔ 0 < (x - 1) * (y - 1)) ∧
      (x - 1) * (y - 1) * mu ≡ 1 [ZMOD x * y] := by
  have hmodulus : 1 < (x * y).natAbs := by
    rw [Int.natAbs_mul]
    exact h.one_lt_mul
  exact Residue.inverse?_ofInt hmodulus h.coprime_predecessors

/-- **With every choice of signs there is a key without checks**, if the modulus can be squared. -/
theorem ofPrimesUnchecked_ofInt (h : PrimePair x.natAbs y.natAbs)
    (hfits : x.natAbs * y.natAbs * (x.natAbs * y.natAbs) < 2 ^ capacityBits) :
    ∃ sk, PrivateKey.ofPrimesUnchecked (ofInt x) (ofInt y) = .ok (some sk) ∧ sk.IsKeyOfIntegers x y := by
  have hq := h.seven_le_q
  have hsquare : (ofInt (x * y)).magnitude * (ofInt (x * y)).magnitude < 2 ^ capacityBits := by
    rwa [Number.magnitude_ofInt, Int.natAbs_mul]
  obtain ⟨mu, hmu, hone, hlt, hpos, hmul⟩ := h.inverse?_totient
  refine ⟨⟨⟨ofInt (x * y)⟩, ofInt x, ofInt y, ofInt ((x - 1) * (y - 1)), ofInt mu⟩, ?_, ?_⟩
  · rw [PrivateKey.ofPrimesUnchecked_eq_ofParts h.three_le_p (by omega) hfits, PrivateKey.ofParts, hmu]
    dsimp only
    rw [PublicKey.ofModulusUnchecked_eq_ok_iff.mpr ⟨hsquare, rfl⟩]
    rfl
  · refine ⟨rfl, rfl, rfl, rfl, ?_, ?_, ?_, ?_, ?_⟩
    · simp
    · simpa using hone
    · simpa using hlt
    · simpa using hpos
    · simpa using hmul

end PrimePair

/-! ## Accepted pairs -/

namespace PrivateKey

variable {a b : Number} {sk : PrivateKey}

theorem sign_mul_eq_none_iff {s t : Sign} : s * t = .none ↔ s = .none ∨ t = .none := by
  cases s <;> cases t <;> decide

/-- Without a sign on both there is no key. -/
theorem signs_of_ofPrimesUnchecked (h : ofPrimesUnchecked a b = .ok (some sk)) :
    a.sign ≠ .none ∧ b.sign ≠ .none := by
  obtain ⟨-, -, hn, -, hmu, -⟩ := ofPrimesUnchecked_eq_ok h
  obtain ⟨-, hn⟩ := bounded_eq_ok_iff.mp hn
  rw [← not_or, ← sign_mul_eq_none_iff]
  intro hsign
  rw [← hn, Residue.inverse?_eq_none hsign] at hmu
  cases hmu

/-- Prime magnitudes with a sign are integers. -/
theorem exists_ofInt (hpair : PrimePair a.magnitude b.magnitude) (ha : a.sign ≠ .none) (hb : b.sign ≠ .none) :
    ∃ x y : Int, a = ofInt x ∧ b = ofInt y ∧ PrimePair x.natAbs y.natAbs := by
  obtain ⟨x, rfl⟩ := exists_eq_ofInt ha hpair.prime_p.ne_zero
  obtain ⟨y, rfl⟩ := exists_eq_ofInt hb hpair.prime_q.ne_zero
  rw [Number.magnitude_ofInt, Number.magnitude_ofInt] at hpair
  exact ⟨x, y, rfl, rfl, hpair⟩

/-- **What an accepted pair is, and what its key holds.** -/
theorem isKeyOfIntegers_of_ofPrimes (h : ofPrimes a b = .ok sk) (ha : ExactAt a.magnitude)
    (hb : ExactAt b.magnitude) :
    ∃ x y : Int, a = ofInt x ∧ b = ofInt y ∧ PrimePair x.natAbs y.natAbs ∧ sk.IsKeyOfIntegers x y := by
  obtain ⟨hlen, hresp, hresq, hpassp, hpassq, hunchecked, -⟩ := ofPrimes_eq_ok h
  obtain ⟨hsigna, hsignb⟩ := signs_of_ofPrimesUnchecked hunchecked
  obtain ⟨x, y, rfl, rfl, hpair⟩ := exists_ofInt ⟨ha.mp hpassp, hb.mp hpassq, hlen, hresp, hresq⟩ hsigna hsignb
  have hfits := fits_of_ofPrimesUnchecked hunchecked
  rw [Number.magnitude_ofInt, Number.magnitude_ofInt] at hfits
  -- there is only one way to put the parts together
  obtain ⟨sk', hsk', hkey⟩ := hpair.ofPrimesUnchecked_ofInt hfits
  rw [hsk'] at hunchecked
  cases hunchecked
  exact ⟨x, y, rfl, rfl, hpair, hkey⟩

/-- **Which pairs are accepted: the magnitudes decide, as long as both have a sign.** -/
theorem exists_ofPrimes_iff (ha : ExactAt a.magnitude) (hb : ExactAt b.magnitude) :
    (∃ sk, ofPrimes a b = .ok sk) ↔
      (a.sign ≠ .none ∧ b.sign ≠ .none) ∧ PrimePair a.magnitude b.magnitude ∧
        2 ^ 255 ≤ a.magnitude * b.magnitude ∧ a.magnitude * b.magnitude < 2 ^ 2048 := by
  constructor
  · rintro ⟨sk, hsk⟩
    obtain ⟨hlen, hresp, hresq, hpassp, hpassq, hunchecked, -⟩ := ofPrimes_eq_ok hsk
    have hpair : PrimePair a.magnitude b.magnitude := ⟨ha.mp hpassp, hb.mp hpassq, hlen, hresp, hresq⟩
    have hfits := fits_of_ofPrimesUnchecked hunchecked
    rw [ofPrimes_of_ofPrimesUnchecked hpair hpassp hpassq hunchecked, ite_refuse_eq_ok, Nat.not_lt] at hsk
    exact ⟨signs_of_ofPrimesUnchecked hunchecked, hpair, hsk.1, mul_self_lt_capacity_iff.mp hfits⟩
  · rintro ⟨⟨hsigna, hsignb⟩, hpair, hlong, hsize⟩
    have hpassa := ha.mpr hpair.prime_p
    have hpassb := hb.mpr hpair.prime_q
    obtain ⟨x, y, rfl, rfl, hxy⟩ := exists_ofInt hpair hsigna hsignb
    have hfits := mul_self_lt_capacity_iff.mpr hsize
    rw [Number.magnitude_ofInt, Number.magnitude_ofInt] at hfits
    obtain ⟨sk, hsk, -⟩ := hxy.ofPrimesUnchecked_ofInt hfits
    refine ⟨sk, ?_⟩
    rw [ofPrimes_of_ofPrimesUnchecked hpair hpassa hpassb hsk, if_neg (Nat.not_lt.mpr hlong)]

end PrivateKey

end Paillier
