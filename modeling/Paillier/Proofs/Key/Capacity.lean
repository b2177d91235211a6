import Paillier.Proofs.Key.Generation
import Paillier.Proofs.Key.Signed
import Paillier.Proofs.Format.KeyBytes
import Paillier.Proofs.Randomness.Ending

/-!
# Keys that are too large

A modulus of more than 2048 bits has no square that can be held, and more than 512 bytes cannot be read as a number.
Nothing examines either of them, so a request for such a key is given up instead of being refused. For everything that
makes a key it is told exactly when that happens.

## Main statements

* `PublicKey.ofModulus_faults_iff`, `PrivateKey.ofPrimes_faults_iff` — keys from numbers.
* `PublicKey.ofBytes_faults_iff`, `PrivateKey.ofBytes_faults_iff` — keys from bytes.
* `ends_generateKey` — no key of more than 2049 bits is ever generated.
-/

namespace Paillier

open Outcome
open Number (ofInt positive)

/-! ## Public keys -/

namespace PublicKey

theorem ofModulusUnchecked_faults_iff {a : Number} : (ofModulusUnchecked a).Faults ↔ 2 ^ 2048 ≤ a.magnitude := by
  have hsquare : 2 ^ capacityBits ≤ a.magnitude * a.magnitude ↔ 2 ^ 2048 ≤ a.magnitude := by
    rw [← Nat.not_lt, mul_self_lt_capacity_iff, Nat.not_lt]
  rw [ofModulusUnchecked, faults_bind, product_faults_iff, hsquare]
  constructor
  · rintro (h | ⟨_, -, h⟩)
    · exact h
    · exact absurd h (not_faults_ok _)
  · exact Or.inl

/-- **A modulus is given up iff it passes every check and is too long to be squared.** -/
theorem ofModulus_faults_iff {a : Number} :
    (ofModulus a).Faults ↔ a.magnitude % 2 = 1 ∧ isPrime a.magnitude = false ∧ 2 ^ 2048 ≤ a.magnitude := by
  rw [ofModulus, faults_ite_refuse, faults_ite_refuse, ofModulusUnchecked_faults_iff, bitLength_lt_minKeyBits_iff]
  constructor
  · rintro ⟨-, hchecks, hsize⟩
    rw [not_or, Bool.not_eq_true] at hchecks
    exact ⟨by omega, hchecks.2, hsize⟩
  · rintro ⟨hodd, hcomposite, hsize⟩
    refine ⟨?_, ?_, hsize⟩
    · exact Nat.not_lt.mpr (Nat.le_trans (Nat.pow_le_pow_right (by decide) (by decide)) hsize)
    · simp [hodd, hcomposite]

/-- **Bytes are given up if the number behind a length that fits is too long to be read, or is given up itself.** -/
theorem ofBytes_faults_iff {data : Bytes} :
    (ofBytes data).Faults ↔ 36 ≤ data.length ∧ announced data = (payload data).length ∧
      (512 < (payload data).length ∨ (ofModulus (ofBigEndian (payload data))).Faults) := by
  rw [ofBytes_eq_bind, faults_ite_refuse, faults_ite_refuse, numberOfBytes_bind_faults_iff, ofModulus_positive,
    Nat.not_lt, Classical.not_not]

end PublicKey

/-! ## Private keys -/

theorem neverRefuses_product (a b : Number) : NeverRefuses (product a b) := neverRefuses_bounded _

theorem neverRefuses_totient (n p q : Number) : NeverRefuses (totient n p q) := by
  refine (neverRefuses_difference n p).bind fun withoutP => ?_
  refine (neverRefuses_difference withoutP q).bind fun withoutBoth => ?_
  exact neverRefuses_sum withoutBoth 1

namespace PrivateKey

variable {a b : Number} {x y : Int}

theorem neverRefuses_ofParts (p q n lambda : Number) : NeverRefuses (ofParts p q n lambda) := by
  unfold ofParts
  split
  · exact neverRefuses_ok none
  · refine NeverRefuses.bind ?_ fun pk => neverRefuses_ok _
    exact (neverRefuses_product n n).bind fun _ => neverRefuses_ok _

theorem neverRefuses_ofPrimesUnchecked (a b : Number) : NeverRefuses (ofPrimesUnchecked a b) := by
  refine (neverRefuses_product a b).bind fun n => ?_
  refine (neverRefuses_totient n a b).bind fun lambda => ?_
  exact neverRefuses_ofParts a b n lambda

/-- Where there is an inverse something is put together, or nothing comes out at all. -/
theorem ofPrimesUnchecked_ofInt_ne_none (h : PrimePair x.natAbs y.natAbs) :
    ofPrimesUnchecked (ofInt x) (ofInt y) ≠ .ok none := by
  intro hnone
  have hp := h.three_le_p
  have hq := h.seven_le_q
  obtain ⟨n, hn, hnone⟩ := bind_eq_ok.mp hnone
  rw [product_ofInt h.left_ne_zero h.right_ne_zero] at hn
  obtain ⟨-, rfl⟩ := bounded_eq_ok_iff.mp hn
  obtain ⟨lambda, hlambda, hnone⟩ := bind_eq_ok.mp hnone
  obtain rfl := eq_of_totient_ofInt hp (by omega) hlambda
  obtain ⟨mu, hmu, -⟩ := h.inverse?_totient
  rw [ofParts, hmu] at hnone
  obtain ⟨pk, -, hnone⟩ := bind_eq_ok.mp hnone
  cases hnone

/-- A magnitude that is at least three has room for one more in its product with another. -/
theorem succ_lt_of_mul_lt {m n k : Nat} (hm : 3 ≤ m) (hn : 3 ≤ n) (h : m * n < k) : m + 1 < k ∧ n + 1 < k := by
  have hleft := Nat.mul_le_mul_left m hn
  have hright := Nat.mul_le_mul_right n hm
  omega

/-- Without a sign on both there is nothing to put together. -/
theorem ofPrimesUnchecked_of_signless (hsign : a.sign = .none ∨ b.sign = .none) (ha : 3 ≤ a.magnitude)
    (hb : 3 ≤ b.magnitude) (hcap : a.magnitude * b.magnitude < 2 ^ capacityBits) :
    ofPrimesUnchecked a b = .ok none := by
  have hproduct := sign_mul_eq_none_iff.mpr hsign
  obtain ⟨ha', hb'⟩ := succ_lt_of_mul_lt ha hb hcap
  have hn : product a b = .ok ⟨a.sign * b.sign, a.magnitude * b.magnitude⟩ := bounded_eq_ok (fits_iff.mpr hcap)
  obtain ⟨lambda, hlambda⟩ :=
    exists_totient_of_signless (n := ⟨a.sign * b.sign, a.magnitude * b.magnitude⟩) hproduct hsign ha' hb'
  rw [ofPrimesUnchecked, hn, ok_bind, hlambda, ok_bind, ofParts, Residue.inverse?_eq_none hproduct]

/-- If the modulus can be squared nothing is given up, whatever the numbers are. -/
theorem exists_ofPrimesUnchecked (ha : 3 ≤ a.magnitude) (hb : 3 ≤ b.magnitude)
    (hsize : a.magnitude * b.magnitude < 2 ^ 2048) : ∃ found, ofPrimesUnchecked a b = .ok found := by
  have hfits := mul_self_lt_capacity_iff.mpr hsize
  have hcap : a.magnitude * b.magnitude < 2 ^ capacityBits := Nat.lt_of_le_of_lt (Nat.le_mul_self _) hfits
  by_cases hsign : a.sign = .none ∨ b.sign = .none
  · exact ⟨none, ofPrimesUnchecked_of_signless hsign ha hb hcap⟩
  rw [not_or] at hsign
  obtain ⟨x, rfl⟩ := exists_eq_ofInt hsign.1 (by omega)
  obtain ⟨y, rfl⟩ := exists_eq_ofInt hsign.2 (by omega)
  simp only [Number.magnitude_ofInt] at ha hb hfits
  rw [ofPrimesUnchecked_eq_ofParts ha hb hfits]
  refine exists_ofParts_eq_ok _ _ _ ?_
  rwa [Number.magnitude_ofInt, Int.natAbs_mul]

theorem not_faults_ofPrimesUnchecked (ha : 3 ≤ a.magnitude) (hb : 3 ≤ b.magnitude)
    (hsize : a.magnitude * b.magnitude < 2 ^ 2048) : ¬ (ofPrimesUnchecked a b).Faults := by
  obtain ⟨found, hfound⟩ := exists_ofPrimesUnchecked ha hb hsize
  rw [hfound]
  exact not_faults_ok found

/-- **When a prime pair is given up without checks.** -/
theorem ofPrimesUnchecked_faults_iff (h : PrimePair a.magnitude b.magnitude) :
    (ofPrimesUnchecked a b).Faults ↔
      (a.sign ≠ .none ∧ b.sign ≠ .none) ∧ 2 ^ 2048 ≤ a.magnitude * b.magnitude ∨
        2 ^ capacityBits ≤ a.magnitude * b.magnitude := by
  have ha := h.three_le_p
  have hb : 3 ≤ b.magnitude := Nat.le_trans (by decide) h.seven_le_q
  have hmono : (2 : Nat) ^ 2048 ≤ 2 ^ capacityBits := pow_le_pow_right₀ (by decide) (by decide)
  by_cases hsign : a.sign = .none ∨ b.sign = .none
  · have hsigns : ¬ (a.sign ≠ .none ∧ b.sign ≠ .none) := fun hc => hsign.elim hc.1 hc.2
    by_cases hcap : a.magnitude * b.magnitude < 2 ^ capacityBits
    · rw [ofPrimesUnchecked_of_signless hsign ha hb hcap]
      refine iff_of_false (not_faults_ok none) ?_
      rintro (⟨hc, -⟩ | hlarge)
      · exact hsigns hc
      · exact Nat.not_le.mpr hcap hlarge
    · have hproduct := product_faults_iff.mpr (Nat.not_lt.mp hcap)
      exact iff_of_true (faults_bind.mpr (Or.inl hproduct)) (Or.inr (Nat.not_lt.mp hcap))
  · rw [not_or] at hsign
    by_cases hsize : a.magnitude * b.magnitude < 2 ^ 2048
    · refine iff_of_false (not_faults_ofPrimesUnchecked ha hb hsize) ?_
      rintro (⟨-, hlarge⟩ | hlarge)
      · exact Nat.not_le.mpr hsize hlarge
      · exact Nat.not_le.mpr hsize (Nat.le_trans hmono hlarge)
    · refine iff_of_true ?_ (Or.inl ⟨hsign, Nat.not_lt.mp hsize⟩)
      rcases (neverRefuses_ofPrimesUnchecked a b).faults_or_ok with hfault | ⟨found, hfound⟩
      · exact hfault
      exfalso
      obtain ⟨x, y, rfl, rfl, hxy⟩ := exists_ofInt h hsign.1 hsign.2
      cases found with
      | none => exact ofPrimesUnchecked_ofInt_ne_none hxy hfound
      | some sk => exact hsize (mul_self_lt_capacity_iff.mp (fits_of_ofPrimesUnchecked hfound))

/-- Only what passes every check is put together, and so can be given up. -/
theorem ofPrimes_faults_iff_checks :
    (ofPrimes a b).Faults ↔
      ¬ (a = b ∨ bitLength a.magnitude ≠ bitLength b.magnitude) ∧
        ¬ bitLength a.magnitude + bitLength b.magnitude < minKeyBits ∧
        ¬ (a.magnitude % 8 ≠ 3 ∨ b.magnitude % 8 ≠ 7) ∧
        ¬ (¬ isPrime a.magnitude = true ∨ ¬ isPrime b.magnitude = true) ∧ (ofPrimesUnchecked a b).Faults := by
  rw [ofPrimes, faults_ite_refuse, faults_ite_refuse, faults_ite_refuse, faults_ite_refuse, faults_bind]
  refine and_congr_right fun _ => and_congr_right fun _ => and_congr_right fun _ => and_congr_right fun _ => ?_
  constructor
  · rintro (hfault | ⟨found, -, hfault⟩)
    · exact hfault
    · cases found with
      | none => exact absurd hfault (not_faults_refuse _)
      | some sk => exact absurd (faults_ite_refuse.mp hfault).2 (not_faults_ok sk)
  · exact Or.inl

/-- Where the modulus can be squared no pair is given up, whether the primality test is right about it or not. -/
theorem not_faults_ofPrimes (hsize : a.magnitude * b.magnitude < 2 ^ 2048) : ¬ (ofPrimes a b).Faults := by
  rw [ofPrimes_faults_iff_checks]
  rintro ⟨-, -, hres, -, hfault⟩
  exact not_faults_ofPrimesUnchecked (by omega) (by omega) hsize hfault

/-- **A pair is given up iff it is a prime pair and its product too long**, to be squared or, without signs, to be held. -/
theorem ofPrimes_faults_iff (ha : ExactAt a.magnitude) (hb : ExactAt b.magnitude) :
    (ofPrimes a b).Faults ↔ PrimePair a.magnitude b.magnitude ∧
      ((a.sign ≠ .none ∧ b.sign ≠ .none) ∧ 2 ^ 2048 ≤ a.magnitude * b.magnitude ∨
        2 ^ capacityBits ≤ a.magnitude * b.magnitude) := by
  constructor
  · intro hfault
    obtain ⟨hne, -, hres, hprime, hunchecked⟩ := ofPrimes_faults_iff_checks.mp hfault
    rw [not_or, Classical.not_not] at hne
    rw [not_or, Classical.not_not, Classical.not_not] at hprime hres
    have hpair : PrimePair a.magnitude b.magnitude := ⟨ha.mp hprime.1, hb.mp hprime.2, hne.2, hres.1, hres.2⟩
    exact ⟨hpair, (ofPrimesUnchecked_faults_iff hpair).mp hunchecked⟩
  · rintro ⟨hpair, hlarge⟩
    have hunchecked := (ofPrimesUnchecked_faults_iff hpair).mpr hlarge
    have hlong : ¬ bitLength a.magnitude + bitLength b.magnitude < minKeyBits := by
      intro hshort
      refine not_faults_ofPrimesUnchecked hpair.three_le_p (Nat.le_trans (by decide) hpair.seven_le_q) ?_ hunchecked
      exact Nat.lt_of_lt_of_le (mul_lt_of_bitLength_add hshort) (pow_le_pow_right₀ (by decide) (by decide))
    rw [ofPrimes_eq_bind hpair (ha.mpr hpair.prime_p) (hb.mpr hpair.prime_q), faults_ite_refuse, faults_bind]
    exact ⟨hlong, Or.inl hunchecked⟩

/-- **Bytes are given up if a prime behind a length that fits is too long to be read, or the pair is given up itself.** -/
theorem ofBytes_faults_iff {data : Bytes} :
    (ofBytes data).Faults ↔ 36 ≤ data.length ∧ 2 * announced data = (payload data).length ∧
      (512 < announced data ∨ (ofPrimes (ofBigEndian (firstHalf data)) (ofBigEndian (secondHalf data))).Faults) := by
  rw [ofBytes_eq_bind, faults_ite_refuse, faults_ite_refuse, Nat.not_lt, Classical.not_not]
  refine and_congr_right fun _ => and_congr_right fun hlength => ?_
  -- both halves have the announced length
  have hfirst : (firstHalf data).length = announced data := by
    rw [firstHalf, List.length_take]
    omega
  have hsecond : (secondHalf data).length = announced data := by
    rw [secondHalf, List.length_drop]
    omega
  rw [numberOfBytes_bind_faults_iff, numberOfBytes_bind_faults_iff, ofPrimes_positive, hfirst, hsecond, ← or_assoc,
    or_self]

end PrivateKey

/-! ## Key generation -/

section

variable {bits primeBits : Nat}

/-- Two primes that were drawn are joined only if the modulus can be squared. -/
theorem ends_joinPrimes (p q attempt : Nat) :
    (joinPrimes p q attempt).Ends fun found => ∀ sk ∈ found, p * q * (p * q) < 2 ^ capacityBits := by
  unfold joinPrimes
  split
  · exact Sampler.ends_pure fun sk hsk => nomatch hsk
  refine (Sampler.ends_outcome (neverRefuses_product p q) fun n hn =>
    PrivateKey.magnitude_of_product hn).bind fun n hn => ?_
  refine (Sampler.ends_outcome (neverRefuses_totient n p q) fun _ _ => trivial).bind fun lambda _ => ?_
  split
  · exact (Sampler.ends_record _).bind fun _ _ => Sampler.ends_pure fun sk hsk => nomatch hsk
  refine (Sampler.ends_outcome (PrivateKey.neverRefuses_ofParts p q n lambda) fun _ h => h).bind fun found hfound => ?_
  cases found with
  | none => exact Sampler.ends_pure fun sk hsk => nomatch hsk
  | some sk =>
    refine (Sampler.ends_record _).bind fun _ _ => Sampler.ends_pure fun _ _ => ?_
    obtain ⟨-, -, hpk⟩ := PrivateKey.ofParts_eq_ok hfound
    rw [Number.magnitude_ofNat, Number.magnitude_ofNat] at hn
    rw [← hn]
    exact (PublicKey.ofModulusUnchecked_eq_ok_iff.mp hpk).1

/-- The product of two primes of more than 1024 bits cannot be squared, so they make no key. -/
theorem ends_drawKey (hmin : 1025 ≤ primeBits) (hscratch : bytesForBits primeBits < scratchLimit) (attempt : Nat) :
    (drawKey primeBits attempt).Ends fun found => ∀ sk ∈ found, False := by
  refine (ends_randomPrime (by omega) hscratch (by decide) (by decide)).bind fun p hp => ?_
  refine (ends_randomPrime (by omega) hscratch (by decide) (by decide)).bind fun q hq => ?_
  refine (ends_joinPrimes p q attempt).mono fun found hfound sk hsk => ?_
  have hlen := hp.bitLength_mul hq (by omega)
  have hsize : bitLength (p * q) ≤ 2048 := by
    rw [bitLength_le_iff, ← mul_self_lt_capacity_iff]
    exact hfound sk hsk
  omega

/-- From the recommended length on nothing but the search is left of key generation. -/
theorem generateKey_of_recommended (h : recommendedKeyBits ≤ bits) :
    generateKey bits = Sampler.untilSome (drawKey (bits / 2)) (takes_drawKey (bits / 2)) := by
  have hlong : ¬ bits < minKeyBits := Nat.not_lt.mpr (Nat.le_trans (by decide) h)
  rw [generateKey, if_neg hlong, if_neg (Nat.not_lt.mpr h)]

/-- **No key of more than 2049 bits is ever generated**: the entropy runs out, or the request is given up. -/
theorem ends_generateKey (hmin : 2050 ≤ bits) (hscratch : bytesForBits (bits / 2) < scratchLimit) :
    (generateKey bits).Ends fun _ => False := by
  rw [generateKey_of_recommended (Nat.le_trans (by decide) hmin)]
  exact Sampler.Ends.untilSome _ fun attempt => ends_drawKey (by omega) hscratch attempt

theorem not_faults_generateKeyPair (hmax : bits ≤ 2049) (source : Source) :
    ¬ ((generateKeyPair bits).runOn source).1.Faults := by
  by_cases hshort : bits < minKeyBits
  · rw [generateKeyPair, generateKey, if_pos hshort]
    exact not_faults_refuse _
  · have hyields : (generateKeyPair bits).Yields (bytesForBits (bits / 2)) fun _ => True :=
      (yields_generateKey (Nat.not_lt.mp hshort) hmax).bind fun sk _ => Sampler.yields_pure trivial
    exact hyields.not_faults source

theorem ends_generateKeyPair (hmin : 2050 ≤ bits) (hscratch : bytesForBits (bits / 2) < scratchLimit) :
    (generateKeyPair bits).Ends fun _ => False :=
  (ends_generateKey hmin hscratch).bind fun _ h => h.elim

end

/-! ## Primes that are too long to be read -/

section

variable {bits residue : Nat} {source : Source}

/-- If there are enough bytes for a block, it is too long to be read. -/
theorem runOn_drawPrime_of_long (hlong : capacityBytes < bytesForBits bits) (attempt : Nat) :
    ((drawPrime bits residue attempt).runOn source).1 =
      .error (if source.entropy.length < bytesForBits bits then .refused .entropyFailure
        else .fault .oversizedBytes) := by
  rw [drawPrime, Sampler.runOn_bind, Sampler.runOn_draw]
  by_cases hstarved : source.entropy.length < bytesForBits bits
  · rw [if_pos hstarved, if_pos hstarved]
    rfl
  · have hblock : capacityBytes < (source.entropy.take (bytesForBits bits)).length := by
      rw [List.length_take_of_le (Nat.not_lt.mp hstarved)]
      exact hlong
    rw [if_neg hstarved, if_neg hstarved]
    dsimp only
    rw [Sampler.runOn_bind, Sampler.runOn_outcome, numberOfBytes, if_pos hblock]
    rfl

/-- If the first prime cannot be drawn there is no key. -/
theorem runOn_generateKeyPair_of_error (hlong : recommendedKeyBits ≤ bits) {failure : Failure}
    (h : ((randomPrime (bits / 2) residueOfP).runOn source).1 = .error failure) :
    ((generateKeyPair bits).runOn source).1 = .error failure := by
  refine Sampler.runOn_bind_of_error ?_ _
  rw [generateKey_of_recommended hlong]
  exact Sampler.runOn_untilSome_of_error _ (Sampler.runOn_bind_of_error h _)

/-- **From 8194 bits on the first draw decides.** -/
theorem runOn_generateKeyPair_of_long (hlong : 8194 ≤ bits) (hscratch : bytesForBits (bits / 2) < scratchLimit) :
    ((generateKeyPair bits).runOn source).1 =
      .error (if source.entropy.length < bytesForBits (bits / 2) then .refused .entropyFailure
        else .fault .oversizedBytes) := by
  have hblock : capacityBytes < bytesForBits (bits / 2) := by
    unfold capacityBytes capacityBits bytesForBits
    omega
  have hbits : 8 ≤ bits / 2 ∧ residueOfP < 8 ∧ residueOfP % 2 = 1 := ⟨by omega, by decide, by decide⟩
  refine runOn_generateKeyPair_of_error (Nat.le_trans (by decide) hlong) ?_
  rw [randomPrime, dif_pos hbits, reserveScratch_of_lt hscratch]
  exact Sampler.runOn_untilSome_of_error _ (runOn_drawPrime_of_long hblock 1)

/-- Without scratch space nothing is drawn at all. -/
theorem exists_runOn_generateKeyPair_eq_error (source : Source)
    (hscratch : scratchLimit ≤ bytesForBits (bits / 2)) :
    ∃ failure, ((generateKeyPair bits).runOn source).1 = .error failure := by
  have hlarge : 2050 ≤ bits := by
    unfold scratchLimit bytesForBits at hscratch
    omega
  have hbits : 8 ≤ bits / 2 ∧ residueOfP < 8 ∧ residueOfP % 2 = 1 := ⟨by omega, by decide, by decide⟩
  obtain ⟨failure, hfailure⟩ : ∃ failure, reserveScratch (bits / 2) = .error failure := by
    rw [reserveScratch, if_pos hscratch]
    split <;> exact ⟨_, rfl⟩
  refine ⟨failure, runOn_generateKeyPair_of_error (Nat.le_trans (by decide) hlarge) ?_⟩
  rw [randomPrime, dif_pos hbits]
  refine Sampler.runOn_bind_of_error ?_ _
  rw [Sampler.runOn_outcome, hfailure]

/-- **Keys come out of requests for 256 to 2049 bits only.** -/
theorem bits_of_generateKeyPair {pair : PublicKey × PrivateKey} {rest : Source}
    (generated : (generateKeyPair bits).runOn source = (.ok pair, rest)) : 256 ≤ bits ∧ bits ≤ 2049 := by
  constructor
  · by_contra hcontra
    have hshort : bits < minKeyBits := Nat.not_le.mp hcontra
    rw [generateKeyPair, generateKey, if_pos hshort] at generated
    cases generated
  · by_contra hlarge
    by_cases hscratch : bytesForBits (bits / 2) < scratchLimit
    · have hend := ends_generateKeyPair (by omega) hscratch source
      rw [generated] at hend
      cases hend with
      | value h => exact h
    · obtain ⟨failure, hfailure⟩ := exists_runOn_generateKeyPair_eq_error source (Nat.not_lt.mp hscratch)
      rw [generated] at hfailure
      cases hfailure

end

/-! ## All requests for a key -/

/--
**When a request for a key is given up instead of being answered.**

A modulus, a pair or a byte string is given up iff it passes every check and a number in it is too long: a modulus or
product of more than 2048 bits, or more than 512 bytes to be read as one number. Generating a key is never given up up to
2049 bits. Above that it never succeeds, and is given up unless the entropy runs out first; from 8194 bits on the first
draw is enough.
-/
theorem making_keys_faults_iff (a b : Number) (data : Bytes) (bits : Nat) (source : Source) :
    ((PublicKey.ofModulus a).Faults ↔ a.magnitude % 2 = 1 ∧ isPrime a.magnitude = false ∧ 2 ^ 2048 ≤ a.magnitude) ∧
    ((PublicKey.ofBytes data).Faults ↔
      36 ≤ data.length ∧ announced data = (payload data).length ∧
        (512 < (payload data).length ∨ (PublicKey.ofModulus (ofBigEndian (payload data))).Faults)) ∧
    (a.magnitude * b.magnitude < 2 ^ 2048 → ¬ (PrivateKey.ofPrimes a b).Faults) ∧
    (ExactAt a.magnitude → ExactAt b.magnitude →
      ((PrivateKey.ofPrimes a b).Faults ↔ PrimePair a.magnitude b.magnitude ∧
        ((a.sign ≠ .none ∧ b.sign ≠ .none) ∧ 2 ^ 2048 ≤ a.magnitude * b.magnitude ∨
          2 ^ capacityBits ≤ a.magnitude * b.magnitude))) ∧
    ((PrivateKey.ofBytes data).Faults ↔
      36 ≤ data.length ∧ 2 * announced data = (payload data).length ∧
        (512 < announced data ∨
          (PrivateKey.ofPrimes (ofBigEndian (firstHalf data)) (ofBigEndian (secondHalf data))).Faults)) ∧
    (bits ≤ 2049 → ¬ ((generateKeyPair bits).runOn source).1.Faults) ∧
    (2050 ≤ bits → bytesForBits (bits / 2) < scratchLimit →
      ((generateKeyPair bits).runOn source).1.Faults ∨
        ((generateKeyPair bits).runOn source).1 = refuse .entropyFailure) ∧
    (8194 ≤ bits → bytesForBits (bits / 2) < scratchLimit →
      (((generateKeyPair bits).runOn source).1.Faults ↔ bytesForBits (bits / 2) ≤ source.entropy.length)) := by
  refine ⟨PublicKey.ofModulus_faults_iff, PublicKey.ofBytes_faults_iff, PrivateKey.not_faults_ofPrimes,
    PrivateKey.ofPrimes_faults_iff, PrivateKey.ofBytes_faults_iff, fun hmax => not_faults_generateKeyPair hmax source,
    ?_, ?_⟩
  · intro hmin hscratch
    have hend := ends_generateKeyPair hmin hscratch source
    generalize ((generateKeyPair bits).runOn source).1 = outcome at hend
    cases hend with
    | value h => exact h.elim
    | starved => exact Or.inr rfl
    | fault cause => exact Or.inl (faults_fault cause)
  · intro hlong hscratch
    rw [runOn_generateKeyPair_of_long hlong hscratch]
    by_cases hstarved : source.entropy.length < bytesForBits (bits / 2)
    · rw [if_pos hstarved]
      exact iff_of_false (not_faults_refuse _) (Nat.not_le.mpr hstarved)
    · rw [if_neg hstarved]
      exact iff_of_true (faults_fault _) (Nat.not_lt.mp hstarved)

/-- The primes of the example are not given up, nor is a key of 257 bits. One of 8194 bits is, at its first draw. -/
theorem making_keys_faults_iff_samples :
    (exampleP * exampleQ < 2 ^ 2048 ∧ ¬ (PrivateKey.ofPrimes (positive exampleP) (positive exampleQ)).Faults) ∧
      (ExactAt exampleP ∧ ExactAt exampleQ ∧ PrimePair exampleP exampleQ ∧ ¬ 2 ^ 2048 ≤ exampleP * exampleQ) ∧
      (257 ≤ 2049 ∧ ¬ ((generateKeyPair 257).runOn PrivateKey.sampleSource).1.Faults) ∧
      (2050 ≤ 2050 ∧ bytesForBits (2050 / 2) < scratchLimit ∧
        (((generateKeyPair 2050).runOn ⟨[], []⟩).1.Faults ∨
          ((generateKeyPair 2050).runOn ⟨[], []⟩).1 = refuse .entropyFailure)) ∧
      8194 ≤ 8194 ∧ bytesForBits (8194 / 2) < scratchLimit ∧
        ((generateKeyPair 8194).runOn ⟨List.replicate 513 0, []⟩).1.Faults := by
  have hsize : exampleP * exampleQ < 2 ^ 2048 := by decide +kernel
  have hscratch : bytesForBits (2050 / 2) < scratchLimit := by decide
  have hscratch' : bytesForBits (8194 / 2) < scratchLimit := by decide
  obtain ⟨-, -, hsmall, hpair, -, hshort, -, -⟩ :=
    making_keys_faults_iff (positive exampleP) (positive exampleQ) [] 257 PrivateKey.sampleSource
  obtain ⟨-, -, -, -, -, -, hmiddle, -⟩ := making_keys_faults_iff 0 0 [] 2050 ⟨[], []⟩
  obtain ⟨-, -, -, -, -, -, -, hlong⟩ := making_keys_faults_iff 0 0 [] 8194 ⟨List.replicate 513 0, []⟩
  have hanswered := hsmall hsize
  have hiff := hpair exactAt_exampleP exactAt_exampleQ
  refine ⟨⟨hsize, hanswered⟩, ⟨exactAt_exampleP, exactAt_exampleQ, PrivateKey.primePair_example, fun hlarge => ?_⟩,
    ⟨by decide, hshort (by decide)⟩, ⟨Nat.le_refl _, hscratch, hmiddle (Nat.le_refl _) hscratch⟩, Nat.le_refl _,
    hscratch', ?_⟩
  · refine hanswered (hiff.mpr ⟨PrivateKey.primePair_example, Or.inl ⟨?_, hlarge⟩⟩)
    simp [positive]
  · refine (hlong (Nat.le_refl _) hscratch').mpr ?_
    rw [List.length_replicate]
    decide

/-- A zero of 513 bytes behind its length is not refused for being too short: the request is given up. -/
theorem ofBytes_oversized_zero :
    PublicKey.ofBytes ([1, 2, 0, 0] ++ List.replicate 513 0) = fault .oversizedBytes := by
  decide +kernel

end Paillier
