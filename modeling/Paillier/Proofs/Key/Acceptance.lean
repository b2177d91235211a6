import Paillier.Proofs.Key.Modulus
import Paillier.Proofs.Key.PrimePair
import Paillier.Proofs.Number.Residue

/-!
# Which primes make a private key

Two numbers make a key iff they are a `PrimePair` and their product has at least 256 bits. Whatever else is
refused has one of two causes, and the check that `λ` has an inverse is never the one that decides.

## Main statements

* `PrivateKey.ofPrimes_of_primePair`, `PrivateKey.ofPrimes_of_not_primePair` — the outcome in every case.
* `PrivateKey.ofPrimes_accepts_primePair` — the same as a set of conditions, with the values that the key holds.
* `PrivateKey.sound_of_ofPrimes` — a key that was accepted is sound.
-/

namespace Paillier

open Number (positive)

/-! ## The values of a key -/

/-- All numbers of the key are derived from `p` and `q`. -/
structure PrivateKey.IsKeyOf (sk : PrivateKey) (p q : Nat) : Prop where
  p_eq : sk.p = positive p
  q_eq : sk.q = positive q
  modulus_eq : sk.publicKey.modulus = positive (p * q)
  lambda_eq : sk.lambda = positive ((p - 1) * (q - 1))
  mu_eq : sk.mu = positive sk.mu.magnitude
  one_le_mu : 1 ≤ sk.mu.magnitude
  mu_lt : sk.mu.magnitude < p * q
  lambda_mul_mu : (p - 1) * (q - 1) * sk.mu.magnitude ≡ 1 [MOD p * q]

namespace PrimePair

variable {p q : Nat}

/-- **For two primes of the same length `λ` always has an inverse.** -/
theorem ofPrimesUnchecked_eq_some (h : PrimePair p q) (hfits : p * q * (p * q) < 2 ^ capacityBits) :
    ∃ sk, PrivateKey.ofPrimesUnchecked (positive p) (positive q) = .ok (some sk) ∧ sk.IsKeyOf p q := by
  have hcap : p * q < 2 ^ capacityBits := Nat.lt_of_le_of_lt (Nat.le_mul_self _) hfits
  have hthree : 3 ≤ q := Nat.le_trans (by decide) h.seven_le_q
  obtain ⟨mu, hmu, hpos, hlt, hmul⟩ := Residue.inverse?_eq_some h.one_lt_mul h.coprime_totient
  refine ⟨⟨⟨positive (p * q)⟩, positive p, positive q, positive ((p - 1) * (q - 1)), positive mu⟩, ?_, ?_⟩
  · rw [PrivateKey.ofPrimesUnchecked, product_positive hcap, ok_bind,
      totient_positive h.three_le_p hthree hcap, ok_bind, PrivateKey.ofParts, hmu]
    dsimp only
    rw [PublicKey.ofModulusUnchecked_eq_ok_iff (a := positive (p * q)) |>.mpr ⟨hfits, rfl⟩]
    rfl
  · exact ⟨rfl, rfl, rfl, rfl, rfl, hpos, hlt, hmul⟩

end PrimePair

/-! ## The outcome -/

theorem mul_lt_of_bitLength_add {p q : Nat} (h : bitLength p + bitLength q < minKeyBits) : p * q < 2 ^ 255 := by
  have hp : p < 2 ^ bitLength p := bitLength_le_iff.mp (Nat.le_refl _)
  have hq : q < 2 ^ bitLength q := bitLength_le_iff.mp (Nat.le_refl _)
  calc p * q < 2 ^ bitLength p * 2 ^ bitLength q := Nat.mul_lt_mul'' hp hq
    _ = 2 ^ (bitLength p + bitLength q) := (Nat.pow_add ..).symm
    _ ≤ 2 ^ 255 := Nat.pow_le_pow_right (by decide) (by rw [minKeyBits] at h; omega)

namespace PrivateKey

variable {a b : Number} {p q : Nat} {sk : PrivateKey}

/-- The parts of a key, and the two steps that had to give a value for it. -/
theorem ofParts_eq_ok {n lambda : Number} (h : ofParts a b n lambda = .ok (some sk)) :
    (sk.p = a ∧ sk.q = b ∧ sk.publicKey.modulus = n ∧ sk.lambda = lambda) ∧
      Residue.inverse? lambda n = some sk.mu ∧ PublicKey.ofModulusUnchecked n = .ok sk.publicKey := by
  unfold ofParts at h
  split at h
  · cases h
  next mu hmu =>
    obtain ⟨pk, hpk, h⟩ := bind_eq_ok.mp h
    obtain ⟨-, rfl⟩ := PublicKey.ofModulusUnchecked_eq_ok_iff.mp hpk
    cases h
    exact ⟨⟨rfl, rfl, rfl, rfl⟩, hmu, hpk⟩

/-- The two numbers, and the three that are derived from them: each of the steps has given its value. -/
theorem ofPrimesUnchecked_eq_ok (h : ofPrimesUnchecked a b = .ok (some sk)) :
    sk.p = a ∧ sk.q = b ∧ product a b = .ok sk.publicKey.modulus ∧
      totient sk.publicKey.modulus a b = .ok sk.lambda ∧
      Residue.inverse? sk.lambda sk.publicKey.modulus = some sk.mu ∧
      PublicKey.ofModulusUnchecked sk.publicKey.modulus = .ok sk.publicKey := by
  obtain ⟨n, hn, h⟩ := bind_eq_ok.mp h
  obtain ⟨lambda, hlambda, h⟩ := bind_eq_ok.mp h
  obtain ⟨⟨hp, hq, rfl, rfl⟩, hmu, hpk⟩ := ofParts_eq_ok h
  exact ⟨hp, hq, hn, hlambda, hmu, hpk⟩

theorem magnitude_of_product {n : Number} (h : product a b = .ok n) : n.magnitude = a.magnitude * b.magnitude := by
  obtain ⟨-, rfl⟩ := bounded_eq_ok_iff.mp h
  rfl

/-- What is put together keeps the two numbers it came from. -/
theorem primes_of_ofPrimesUnchecked (h : ofPrimesUnchecked a b = .ok (some sk)) : sk.p = a ∧ sk.q = b := by
  obtain ⟨hp, hq, -⟩ := ofPrimesUnchecked_eq_ok h
  exact ⟨hp, hq⟩

theorem fits_of_ofPrimesUnchecked (h : ofPrimesUnchecked a b = .ok (some sk)) :
    a.magnitude * b.magnitude * (a.magnitude * b.magnitude) < 2 ^ capacityBits := by
  obtain ⟨-, -, hn, -, -, hpk⟩ := ofPrimesUnchecked_eq_ok h
  rw [← magnitude_of_product hn]
  exact (PublicKey.ofModulusUnchecked_eq_ok_iff.mp hpk).1

/-- A prime pair passes all checks on its magnitudes but the one of the length. -/
theorem ofPrimes_eq_bind (h : PrimePair a.magnitude b.magnitude) (ha : isPrime a.magnitude = true)
    (hb : isPrime b.magnitude = true) :
    ofPrimes a b =
      if bitLength a.magnitude + bitLength b.magnitude < minKeyBits then refuse .keyTooShort
      else do
        match ← ofPrimesUnchecked a b with
        | none => refuse .invalidKey
        | some sk => if sk.publicKey.bits < minKeyBits then refuse .keyTooShort else return sk := by
  have hne : ¬ (a = b ∨ bitLength a.magnitude ≠ bitLength b.magnitude) := by
    rintro (heq | hlen)
    · exact h.ne (congrArg Number.magnitude heq)
    · exact hlen h.length_eq
  have hres : ¬ (a.magnitude % 8 ≠ 3 ∨ b.magnitude % 8 ≠ 7) := by simp [h.residue_p, h.residue_q]
  have hprime : ¬ (¬ isPrime a.magnitude = true ∨ ¬ isPrime b.magnitude = true) := by simp [ha, hb]
  refine (if_neg hne).trans (if_congr Iff.rfl rfl ?_)
  exact (if_neg hres).trans (if_neg hprime)

/-- **A prime pair that can be put together makes its key, unless the modulus is too short.** -/
theorem ofPrimes_of_ofPrimesUnchecked (h : PrimePair a.magnitude b.magnitude) (ha : isPrime a.magnitude = true)
    (hb : isPrime b.magnitude = true) (hsk : ofPrimesUnchecked a b = .ok (some sk)) :
    ofPrimes a b = if a.magnitude * b.magnitude < 2 ^ 255 then refuse .keyTooShort else .ok sk := by
  obtain ⟨-, -, hn, -⟩ := ofPrimesUnchecked_eq_ok hsk
  have hbits : sk.publicKey.bits < minKeyBits ↔ a.magnitude * b.magnitude < 2 ^ 255 := by
    rw [← magnitude_of_product hn]
    exact bitLength_lt_minKeyBits_iff
  rw [ofPrimes_eq_bind h ha hb]
  by_cases hsum : bitLength a.magnitude + bitLength b.magnitude < minKeyBits
  · rw [if_pos hsum, if_pos (mul_lt_of_bitLength_add hsum)]
  · rw [if_neg hsum, hsk, ok_bind]
    simp only [hbits]
    rfl

theorem ofPrimes_of_primePair (h : PrimePair p q) (hfits : p * q * (p * q) < 2 ^ capacityBits)
    (hp : isPrime p = true) (hq : isPrime q = true) :
    ∃ sk : PrivateKey, sk.IsKeyOf p q ∧
      ofPrimes (positive p) (positive q) = if p * q < 2 ^ 255 then refuse .keyTooShort else .ok sk := by
  obtain ⟨sk, hsk, hkey⟩ := h.ofPrimesUnchecked_eq_some hfits
  exact ⟨sk, hkey, ofPrimes_of_ofPrimesUnchecked (a := positive p) (b := positive q) h hp hq hsk⟩

theorem ofPrimes_of_not_primePair (h : ¬ PrimePair a.magnitude b.magnitude)
    (ha : ExactAt a.magnitude) (hb : ExactAt b.magnitude) :
    ofPrimes a b =
      if (a ≠ b ∧ bitLength a.magnitude = bitLength b.magnitude) ∧
          bitLength a.magnitude + bitLength b.magnitude < minKeyBits then refuse .keyTooShort
      else refuse .invalidKey := by
  have hexact : isPrime a.magnitude = true → isPrime b.magnitude = true →
      bitLength a.magnitude = bitLength b.magnitude → ¬ (a.magnitude % 8 = 3 ∧ b.magnitude % 8 = 7) :=
    fun hpa hpb hlen hres => h ⟨ha.mp hpa, hb.mp hpb, hlen, hres.1, hres.2⟩
  unfold ofPrimes
  by_cases hne : a = b ∨ bitLength a.magnitude ≠ bitLength b.magnitude
  · rw [if_pos hne, if_neg (by tauto)]
  rw [if_neg hne]
  have hsame : a ≠ b ∧ bitLength a.magnitude = bitLength b.magnitude := by tauto
  by_cases hsum : bitLength a.magnitude + bitLength b.magnitude < minKeyBits
  · rw [if_pos hsum, if_pos ⟨hsame, hsum⟩]
  have hlong : ¬ ((a ≠ b ∧ bitLength a.magnitude = bitLength b.magnitude) ∧
      bitLength a.magnitude + bitLength b.magnitude < minKeyBits) := fun hc => hsum hc.2
  rw [if_neg hsum, if_neg hlong]
  by_cases hres : a.magnitude % 8 ≠ 3 ∨ b.magnitude % 8 ≠ 7
  · rw [if_pos hres]
  -- lengths and residues fit, so one of the two is not a prime
  rw [if_neg hres, if_pos]
  by_contra hc
  rw [not_or, Classical.not_not, Classical.not_not] at hc
  exact hexact hc.1 hc.2 hsame.2 (by omega)

/-- Zeros are refused however they are written, and other magnitudes are written in one way. -/
theorem ofPrimes_positive (p q : Nat) : ofPrimes (positive p) (positive q) = ofPrimes p q := by
  have hlength : ∀ {n : Nat}, 0 < n → bitLength 0 < bitLength n := fun hn => lt_bitLength_iff.mpr hn
  have hrefused : bitLength p ≠ bitLength q → ofPrimes (positive p) (positive q) = ofPrimes p q := by
    intro hne
    have hne' : bitLength (p : Number).magnitude ≠ bitLength (q : Number).magnitude := by
      rwa [Number.magnitude_ofNat, Number.magnitude_ofNat]
    exact (if_pos (Or.inr hne)).trans (if_pos (Or.inr hne')).symm
  rcases Nat.eq_zero_or_pos p with rfl | hp
  · rcases Nat.eq_zero_or_pos q with rfl | hq
    · rfl
    · exact hrefused (Nat.ne_of_lt (hlength hq))
  · rcases Nat.eq_zero_or_pos q with rfl | hq
    · exact hrefused (Nat.ne_of_gt (hlength hp))
    · rw [Number.ofNat_of_pos hp, Number.ofNat_of_pos hq]

/-- What has been checked when a key comes out. -/
theorem ofPrimes_eq_ok (h : ofPrimes a b = .ok sk) :
    bitLength a.magnitude = bitLength b.magnitude ∧ a.magnitude % 8 = 3 ∧ b.magnitude % 8 = 7 ∧
      isPrime a.magnitude = true ∧ isPrime b.magnitude = true ∧ ofPrimesUnchecked a b = .ok (some sk) ∧
      minKeyBits ≤ bitLength a.magnitude + bitLength b.magnitude := by
  obtain ⟨hne, h⟩ := ite_refuse_eq_ok.mp h
  obtain ⟨hsum, h⟩ := ite_refuse_eq_ok.mp h
  obtain ⟨hres, h⟩ := ite_refuse_eq_ok.mp h
  obtain ⟨hprime, h⟩ := ite_refuse_eq_ok.mp h
  obtain ⟨sk?, hsk, h⟩ := bind_eq_ok.mp h
  split at h
  · cases h
  split at h
  · cases h
  cases h
  rw [not_or, Classical.not_not, Classical.not_not] at hprime
  exact ⟨by tauto, by omega, by omega, hprime.1, hprime.2, hsk, Nat.not_lt.mp hsum⟩

/-- A key that was accepted keeps the two numbers it came from. -/
theorem primes_of_ofPrimes (h : ofPrimes a b = .ok sk) : sk.p = a ∧ sk.q = b := by
  obtain ⟨-, -, -, -, -, hunchecked, -⟩ := ofPrimes_eq_ok h
  exact primes_of_ofPrimesUnchecked hunchecked

/-- The length of the modulus is checked last, so a key that comes out has a long one. -/
theorem two_pow_le_n_of_ofPrimes (h : ofPrimes a b = .ok sk) : 2 ^ 255 ≤ sk.publicKey.n := by
  obtain ⟨-, h⟩ := ite_refuse_eq_ok.mp h
  obtain ⟨-, h⟩ := ite_refuse_eq_ok.mp h
  obtain ⟨-, h⟩ := ite_refuse_eq_ok.mp h
  obtain ⟨-, h⟩ := ite_refuse_eq_ok.mp h
  obtain ⟨sk?, -, h⟩ := bind_eq_ok.mp h
  split at h
  · cases h
  obtain ⟨hbits, h⟩ := ite_refuse_eq_ok.mp h
  cases h
  rwa [PublicKey.bits, bitLength_lt_minKeyBits_iff, Nat.not_lt] at hbits

end PrivateKey

/-! ## Accepted keys -/

namespace PrivateKey

variable {p q : Nat} {sk : PrivateKey}

theorem IsKeyOf.ofModulus_eq_ok (h : sk.IsKeyOf p q) (hpair : PrimePair p q)
    (hfits : p * q * (p * q) < 2 ^ capacityBits) (hlong : 2 ^ 255 ≤ p * q) (hexact : ExactAt (p * q)) :
    PublicKey.ofModulus (positive (p * q)) = .ok sk.publicKey := by
  have hcomposite : isPrime (p * q) = false :=
    hexact.eq_false_iff.mpr (Nat.not_prime_mul hpair.prime_p.ne_one hpair.prime_q.ne_one)
  exact PublicKey.ofModulus_eq_ok_iff.mpr ⟨hlong, hpair.odd_mul, hcomposite, hfits, by rw [← h.modulus_eq]⟩

/-- A key that was accepted is made of a prime pair whose product can be squared. -/
theorem isKeyOf_of_ofPrimes (h : ofPrimes p q = .ok sk) (hp : ExactAt p) (hq : ExactAt q) :
    PrimePair p q ∧ p * q * (p * q) < 2 ^ capacityBits ∧ sk.IsKeyOf p q := by
  obtain ⟨hlen, hresp, hresq, hpassp, hpassq, hunchecked, -⟩ := ofPrimes_eq_ok h
  -- the parts were put together, so the square of the modulus can be held
  have hfits := fits_of_ofPrimesUnchecked hunchecked
  rw [Number.magnitude_ofNat] at hlen hresp hpassp hfits
  rw [Number.magnitude_ofNat] at hlen hresq hpassq hfits
  have hpair : PrimePair p q := ⟨hp.mp hpassp, hq.mp hpassq, hlen, hresp, hresq⟩
  -- and there is only one way to put them together
  obtain ⟨sk', hsk', hkey⟩ := hpair.ofPrimesUnchecked_eq_some hfits
  rw [Number.ofNat_of_pos (by omega), Number.ofNat_of_pos (by omega), hsk'] at hunchecked
  cases hunchecked
  exact ⟨hpair, hfits, hkey⟩

theorem IsKeyOf.sound (h : sk.IsKeyOf p q) (hpair : PrimePair p q)
    (hfits : p * q * (p * q) < 2 ^ capacityBits) : sk.Sound where
  publicKey :=
    { sign_eq := by rw [h.modulus_eq]; rfl
      odd := by rw [PublicKey.n, h.modulus_eq]; exact hpair.odd_mul
      one_lt := by rw [PublicKey.n, h.modulus_eq]; exact hpair.one_lt_mul
      fits := by rw [PublicKey.n, h.modulus_eq]; exact hfits }
  lambda_sign := by rw [h.lambda_eq]; rfl
  lambda_eq := by
    rw [h.lambda_eq, PublicKey.n, h.modulus_eq]
    exact hpair.totient_mul.symm
  mu_sign := by rw [h.mu_eq]; rfl
  lambda_mul_mu := by
    rw [PublicKey.n, h.modulus_eq, Number.magnitude_positive, hpair.totient_mul]
    exact h.lambda_mul_mu

/-- **A key that was accepted is sound, and its modulus is the product of the primes.** -/
theorem sound_of_ofPrimes (h : ofPrimes p q = .ok sk) (hp : ExactAt p) (hq : ExactAt q) :
    sk.Sound ∧ sk.publicKey.n = p * q := by
  obtain ⟨hpair, hfits, hkey⟩ := isKeyOf_of_ofPrimes h hp hq
  refine ⟨hkey.sound hpair hfits, ?_⟩
  rw [PublicKey.n, hkey.modulus_eq, Number.magnitude_positive]

theorem primePair_example : PrimePair exampleP exampleQ where
  prime_p := prime_exampleP
  prime_q := prime_exampleQ
  length_eq := by decide
  residue_p := by decide
  residue_q := by decide

/-- The two primes of the example make a key. -/
theorem exists_ofPrimes_example : ∃ sk, ofPrimes exampleP exampleQ = .ok sk := by
  obtain ⟨sk, -, hsk⟩ := ofPrimes_of_primePair primePair_example (mul_self_lt_capacity_iff.mpr mul_example_lt)
    (exactAt_exampleP.mpr prime_exampleP) (exactAt_exampleQ.mpr prime_exampleQ)
  rw [if_neg (by decide)] at hsk
  exact ⟨sk, hsk⟩

/-! ## The conditions -/

/--
When a pair of numbers is refused for being too short: both lengths agree and are small, which is seen before
anything else is known of two different numbers, or all is well but the product. Zeros that are written
differently are different numbers.
-/
def TooShort (x y : Number) (p q : Nat) : Prop :=
  (x ≠ y ∧ bitLength p = bitLength q ∧ bitLength p + bitLength q < 256) ∨
    (PrimePair p q ∧ p * q < 2 ^ 255)

/-- The three outcomes exclude each other. -/
theorem ofPrimes_cases {x y : Number} (hx : x.Denotes p) (hy : y.Denotes q)
    (hfits : p * q * (p * q) < 2 ^ capacityBits) (hp : ExactAt p) (hq : ExactAt q) :
    (PrimePair p q ∧ 2 ^ 255 ≤ p * q ∧ ¬ TooShort x y p q ∧ ∃ sk, ofPrimes x y = .ok sk) ∨
      (¬ (PrimePair p q ∧ 2 ^ 255 ≤ p * q) ∧ TooShort x y p q ∧ ofPrimes x y = refuse .keyTooShort) ∨
      (¬ (PrimePair p q ∧ 2 ^ 255 ≤ p * q) ∧ ¬ TooShort x y p q ∧ ofPrimes x y = refuse .invalidKey) := by
  by_cases hpair : PrimePair p q
  -- a prime pair has no zero in it, so both numbers carry a plus
  · obtain rfl := hx.eq_positive hpair.prime_p.pos
    obtain rfl := hy.eq_positive hpair.prime_q.pos
    obtain ⟨sk, -, heq⟩ := ofPrimes_of_primePair hpair hfits (hp.mpr hpair.prime_p) (hq.mpr hpair.prime_q)
    by_cases hshort : p * q < 2 ^ 255
    · rw [if_pos hshort] at heq
      exact Or.inr (Or.inl ⟨fun hc => Nat.not_lt.mpr hc.2 hshort, Or.inr ⟨hpair, hshort⟩, heq⟩)
    · rw [if_neg hshort] at heq
      refine Or.inl ⟨hpair, Nat.not_lt.mp hshort, ?_, sk, heq⟩
      rintro (⟨-, -, hsum⟩ | ⟨-, hlt⟩)
      · exact hshort (mul_lt_of_bitLength_add hsum)
      · exact hshort hlt
  · have heq := ofPrimes_of_not_primePair (a := x) (b := y)
    rw [hx.magnitude_natCast, hy.magnitude_natCast] at heq
    have hrefused := heq hpair hp hq
    by_cases hshort : (x ≠ y ∧ bitLength p = bitLength q) ∧ bitLength p + bitLength q < minKeyBits
    · rw [if_pos hshort] at hrefused
      exact Or.inr (Or.inl ⟨fun hc => hpair hc.1, Or.inl ⟨hshort.1.1, hshort.1.2, hshort.2⟩, hrefused⟩)
    · rw [if_neg hshort] at hrefused
      refine Or.inr (Or.inr ⟨fun hc => hpair hc.1, ?_, hrefused⟩)
      rintro (⟨hne, hlen, hsum⟩ | ⟨hc, -⟩)
      · exact hshort ⟨⟨hne, hlen⟩, hsum⟩
      · exact hpair hc

/--
**Exactly the prime pairs with a product of at least 256 bits make a key.**

The other parts say when a refusal blames the length, that every other one blames the key, that a missing
inverse is never the reason, and what the key holds.
-/
theorem ofPrimes_accepts_primePair {x y : Number} (hx : x.Denotes p) (hy : y.Denotes q)
    (hsize : p * q < 2 ^ 2048) (hp : ExactAt p) (hq : ExactAt q) (hpq : ExactAt (p * q)) :
    ((∃ sk, ofPrimes x y = .ok sk) ↔ PrimePair p q ∧ 2 ^ 255 ≤ p * q) ∧
    (ofPrimes x y = refuse .keyTooShort ↔
      (x ≠ y ∧ bitLength p = bitLength q ∧ bitLength p + bitLength q < 256) ∨
        (PrimePair p q ∧ p * q < 2 ^ 255)) ∧
    ((∃ sk, ofPrimes x y = .ok sk) ∨ ofPrimes x y = refuse .keyTooShort ∨
      ofPrimes x y = refuse .invalidKey) ∧
    (PrimePair p q → Nat.Coprime ((p - 1) * (q - 1)) (p * q) ∧
      ∃ sk, ofPrimesUnchecked x y = .ok (some sk)) ∧
    (∀ sk, ofPrimes x y = .ok sk →
      sk.IsKeyOf p q ∧ sk.publicKey.modulusSquared = positive ((p * q) ^ 2) ∧
        PublicKey.ofModulus (p * q : Nat) = .ok sk.publicKey) := by
  have hfits := mul_self_lt_capacity_iff.mpr hsize
  have hcases := ofPrimes_cases hx hy hfits hp hq
  refine ⟨?_, ?_, ?_, ?_, ?_⟩
  · rcases hcases with ⟨hpair, hlong, -, sk, heq⟩ | ⟨hnot, -, heq⟩ | ⟨hnot, -, heq⟩
    · exact iff_of_true ⟨sk, heq⟩ ⟨hpair, hlong⟩
    · exact iff_of_false (by simp [heq]) hnot
    · exact iff_of_false (by simp [heq]) hnot
  · show _ ↔ TooShort x y p q
    rcases hcases with ⟨-, -, hnot, sk, heq⟩ | ⟨-, hshort, heq⟩ | ⟨-, hnot, heq⟩
    · exact iff_of_false (by simp [heq]) hnot
    · exact iff_of_true heq hshort
    · exact iff_of_false (by simp [heq]) hnot
  · rcases hcases with ⟨-, -, -, hok⟩ | ⟨-, -, heq⟩ | ⟨-, -, heq⟩
    · exact Or.inl hok
    · exact Or.inr (Or.inl heq)
    · exact Or.inr (Or.inr heq)
  · intro hpair
    obtain rfl := hx.eq_positive hpair.prime_p.pos
    obtain rfl := hy.eq_positive hpair.prime_q.pos
    obtain ⟨sk, hsk, -⟩ := hpair.ofPrimesUnchecked_eq_some hfits
    exact ⟨hpair.coprime_totient, sk, hsk⟩
  · intro sk hsk
    rcases hcases with ⟨hpair, hlong, -⟩ | ⟨-, -, heq⟩ | ⟨-, -, heq⟩
    · obtain rfl := hx.eq_positive hpair.prime_p.pos
      obtain rfl := hy.eq_positive hpair.prime_q.pos
      rw [← Number.ofNat_of_pos hpair.prime_p.pos, ← Number.ofNat_of_pos hpair.prime_q.pos] at hsk
      obtain ⟨-, -, hkey⟩ := isKeyOf_of_ofPrimes hsk hp hq
      refine ⟨hkey, ?_, ?_⟩
      · rw [PublicKey.modulusSquared, hkey.modulus_eq, Nat.pow_two]
        rfl
      · rw [Number.ofNat_of_pos (Nat.lt_trans Nat.zero_lt_one hpair.one_lt_mul)]
        exact hkey.ofModulus_eq_ok hpair hfits hlong hpq
    · simp [heq] at hsk
    · simp [heq] at hsk

/-- Two primes of 128 bits whose product has only 255. -/
example : ofPrimes 211308911315262343786454200744628906251 190272716336039593443274497985839843751 =
    refuse .keyTooShort := by decide +kernel

/-- The two primes of the example are a pair and make a key. -/
theorem exists_key_of_example :
    exampleP * exampleQ < 2 ^ 2048 ∧ ExactAt exampleP ∧ ExactAt exampleQ ∧ ExactAt (exampleP * exampleQ) ∧
      ∃ sk, ofPrimes exampleP exampleQ = .ok sk ∧ sk.IsKeyOf exampleP exampleQ ∧
        PublicKey.ofModulus (exampleP * exampleQ : Nat) = .ok sk.publicKey := by
  have hsize := mul_example_lt
  obtain ⟨hiff, -, -, -, hvalues⟩ :=
    ofPrimes_accepts_primePair (Number.denotes_ofNat exampleP) (Number.denotes_ofNat exampleQ) hsize
      exactAt_exampleP exactAt_exampleQ exactAt_example
  obtain ⟨sk, hsk⟩ := hiff.mpr ⟨primePair_example, mul_example_mem.1⟩
  obtain ⟨hkey, -, hpk⟩ := hvalues sk hsk
  exact ⟨hsize, exactAt_exampleP, exactAt_exampleQ, exactAt_example, sk, hsk, hkey, hpk⟩

end PrivateKey

end Paillier
