import Paillier.Proofs.Key.Generation
import Paillier.Proofs.Randomness.Block
import Paillier.Proofs.Randomness.Draw

/-!
# One attempt is enough

Key generation is written as a search: two primes that do not fit together are thrown away. But two primes that were
drawn always fit together. They have the same length; they differ, as their residues modulo 8 do; and neither divides
the predecessor of the other, so `λ` has an inverse. What a request does can therefore be told from the blocks of its
source.

## Main statements

* `PrimePair.runOn_joinPrimes` — two primes of a pair always make a key.
* `runOn_drawKey_of_first` — the first two primes of a source make a key.
* `generateKeyPair_one_attempt` — the first two primes make the key, or the source ends before they are found.
-/

namespace Paillier

open Number (positive)

/-! ## Two primes fit together -/

section

variable {bits p q : Nat}

theorem IsCandidate.primePair (hp : IsCandidate bits residueOfP p) (hq : IsCandidate bits residueOfQ q)
    (hbits : 2 ≤ bits) (hprimep : p.Prime) (hprimeq : q.Prime) : PrimePair p q :=
  ⟨hprimep, hprimeq, (hp.bitLength_eq hbits).trans (hq.bitLength_eq hbits).symm, hp.residue_eq, hq.residue_eq⟩

/-- The residues differ, so the candidates do. -/
theorem IsCandidate.ne (hp : IsCandidate bits residueOfP p) (hq : IsCandidate bits residueOfQ q) : p ≠ q := by
  rintro rfl
  have heq := hp.residue_eq.symm.trans hq.residue_eq
  exact absurd heq (by decide)

/-- **Two primes of a pair always make a key**, in whichever attempt they are drawn. -/
theorem PrimePair.runOn_joinPrimes (h : PrimePair p q) (hfits : p * q * (p * q) < 2 ^ capacityBits) :
    ∃ sk : PrivateKey, sk.IsKeyOf p q ∧ ∀ attempt source, (joinPrimes p q attempt).runOn source =
      (.ok (some sk), ⟨source.entropy, .keyGenerated (bitLength (p * q)) attempt :: source.events⟩) := by
  have hcap : p * q < 2 ^ capacityBits := Nat.lt_of_le_of_lt (Nat.le_mul_self _) hfits
  have hthree : 3 ≤ q := Nat.le_trans (by decide) h.seven_le_q
  obtain ⟨sk, hsk, hkey⟩ := h.ofPrimesUnchecked_eq_some hfits
  have hproduct := product_positive hcap
  have htotient := totient_positive h.three_le_p hthree hcap
  have hparts : PrivateKey.ofParts (positive p) (positive q) (positive (p * q)) (positive ((p - 1) * (q - 1))) =
      .ok (some sk) := by
    rwa [PrivateKey.ofPrimesUnchecked, hproduct, ok_bind, htotient, ok_bind] at hsk
  have hfit : ¬ (bitLength p ≠ bitLength q ∨ p = q) := by
    rintro (hlen | heq)
    · exact hlen h.length_eq
    · exact h.ne heq
  have hunit : isCoprime (positive ((p - 1) * (q - 1))) (positive (p * q)) = true :=
    (isCoprime_iff (Nat.lt_trans Nat.zero_lt_one h.one_lt_mul)).mpr h.coprime_totient
  have hbits : sk.publicKey.bits = bitLength (p * q) := by
    rw [PublicKey.bits, hkey.modulus_eq]
    rfl
  refine ⟨sk, hkey, fun attempt source => ?_⟩
  rw [joinPrimes, if_neg hfit, Number.ofNat_of_pos h.prime_p.pos, Number.ofNat_of_pos h.prime_q.pos, hproduct,
    Sampler.liftM_ok_bind, htotient, Sampler.liftM_ok_bind, if_neg (not_not.mpr hunit), hparts, Sampler.liftM_ok_bind]
  dsimp only
  rw [hbits]
  rfl

end

/-! ## Attempts -/

section

variable {primeBits i j p q : Nat} {source : Source}

/-- The source is over before there is a first prime. -/
theorem runOn_drawKey_of_none (hmin : 8 ≤ primeBits) (hmax : primeBits ≤ 1024)
    (hnone : NoPrime primeBits residueOfP source.entropy) (attempt : Nat) :
    (drawKey primeBits attempt).runOn source =
      (refuse .entropyFailure, ⟨leftover (bytesForBits primeBits) source.entropy, source.events⟩) := by
  have hcapacity : primeBits ≤ capacityBits := Nat.le_trans hmax (by decide)
  exact Sampler.runOn_bind_of_eq_error (runOn_randomPrime_of_none hmin hcapacity (by decide) (by decide) _ hnone) _

/-- It is over before there is a second one. -/
theorem runOn_drawKey_of_first_of_none (hmin : 8 ≤ primeBits) (hmax : primeBits ≤ 1024)
    (hp : FirstPrime primeBits residueOfP source.entropy i p)
    (hnone : NoPrime primeBits residueOfQ (source.entropy.drop (bytesForBits primeBits * (i + 1)))) (attempt : Nat) :
    (drawKey primeBits attempt).runOn source =
      (refuse .entropyFailure,
        ⟨leftover (bytesForBits primeBits) (source.entropy.drop (bytesForBits primeBits * (i + 1))),
          .primeFound primeBits residueOfP (i + 1) :: source.events⟩) := by
  have hcapacity : primeBits ≤ capacityBits := Nat.le_trans hmax (by decide)
  rw [drawKey, Sampler.runOn_bind_of_eq_ok (runOn_randomPrime_of_first hmin hcapacity (by decide) (by decide) _ hp)]
  exact Sampler.runOn_bind_of_eq_error (runOn_randomPrime_of_none hmin hcapacity (by decide) (by decide) _ hnone) _

/-- **There are two primes, and they make a key.** -/
theorem runOn_drawKey_of_first (hmin : 8 ≤ primeBits) (hmax : primeBits ≤ 1024)
    (hp : FirstPrime primeBits residueOfP source.entropy i p)
    (hq : FirstPrime primeBits residueOfQ (source.entropy.drop (bytesForBits primeBits * (i + 1))) j q)
    (hpair : PrimePair p q) :
    ∃ sk : PrivateKey, sk.IsKeyOf p q ∧ ∀ attempt, (drawKey primeBits attempt).runOn source =
      (.ok (some sk),
        ⟨source.entropy.drop (bytesForBits primeBits * (i + 1 + (j + 1))),
          .keyGenerated (2 * primeBits) attempt :: .primeFound primeBits residueOfQ (j + 1) ::
            .primeFound primeBits residueOfP (i + 1) :: source.events⟩) := by
  have hcapacity : primeBits ≤ capacityBits := Nat.le_trans hmax (by decide)
  obtain ⟨hcp, -⟩ := hp.isCandidate (by omega) (by decide)
  obtain ⟨hcq, -⟩ := hq.isCandidate (by omega) (by decide)
  obtain ⟨sk, hkey, hjoin⟩ := hpair.runOn_joinPrimes (hcp.mul_self_lt hcq (by omega) hmax)
  refine ⟨sk, hkey, fun attempt => ?_⟩
  rw [drawKey, Sampler.runOn_bind_of_eq_ok (runOn_randomPrime_of_first hmin hcapacity (by decide) (by decide) _ hp),
    Sampler.runOn_bind_of_eq_ok
      (runOn_randomPrime_of_first hmin hcapacity (by decide) (by decide) ⟨_, _⟩ hq),
    hjoin, List.drop_drop, ← Nat.mul_add, hcp.bitLength_mul hcq (by omega)]

end

/-! ## Requests -/

section

variable {bits : Nat} {source rest : Source}

/-- The source once a key of this length has been requested: a short one leaves a note in the log. -/
def Source.requesting (source : Source) (bits : Nat) : Source :=
  if bits < recommendedKeyBits then { source with events := .shortKeyRequested bits :: source.events } else source

theorem Source.entropy_requesting (source : Source) (bits : Nat) :
    (source.requesting bits).entropy = source.entropy := by
  unfold requesting
  split <;> rfl

theorem runOn_generateKey (hmin : 256 ≤ bits) (source : Source) :
    (generateKey bits).runOn source =
      (Sampler.untilSome (drawKey (bits / 2)) (takes_drawKey (bits / 2))).runOn (source.requesting bits) := by
  have hlong : ¬ bits < minKeyBits := Nat.not_lt.mpr hmin
  rw [generateKey, if_neg hlong, Source.requesting]
  split <;> rfl

/-- **An attempt that makes a key is the last one.** -/
theorem runOn_generateKeyPair_of_drawKey_eq_ok (hmin : 256 ≤ bits) {sk : PrivateKey}
    (h : (drawKey (bits / 2) 1).runOn (source.requesting bits) = (.ok (some sk), rest)) :
    (generateKeyPair bits).runOn source = (.ok (sk.publicKey, sk), rest) := by
  have hkey : (generateKey bits).runOn source = (.ok sk, rest) := by
    rw [runOn_generateKey hmin]
    exact Sampler.runOn_untilSome_of_some _ h
  rw [generateKeyPair, Sampler.runOn_bind_of_eq_ok hkey]
  rfl

/-- **So is an attempt that fails.** -/
theorem runOn_generateKeyPair_of_drawKey_eq_error (hmin : 256 ≤ bits) {failure : Failure}
    (h : (drawKey (bits / 2) 1).runOn (source.requesting bits) = (.error failure, rest)) :
    (generateKeyPair bits).runOn source = (.error failure, rest) := by
  have hkey : (generateKey bits).runOn source = (.error failure, rest) := by
    rw [runOn_generateKey hmin, Sampler.untilSome, Sampler.runOn_ofRun, Sampler.untilSomeFrom_eq, h]
  exact Sampler.runOn_bind_of_eq_error hkey _

/--
**The first two primes of a source make the key**, or the source ends before they are found.

So nothing is ever drawn for a second attempt: the attempt that is logged is the first, and no pair of primes is thrown
away. That takes a primality test that is right about the two; they have the same length and differ in any case.
-/
theorem generateKeyPair_one_attempt (hmin : 256 ≤ bits) (hmax : bits ≤ 2049) (source : Source) :
    (NoPrime (bits / 2) 3 source.entropy ∧
      (generateKeyPair bits).runOn source =
        (refuse .entropyFailure,
          ⟨leftover (bytesForBits (bits / 2)) source.entropy, (source.requesting bits).events⟩)) ∨
    (∃ i p, FirstPrime (bits / 2) 3 source.entropy i p ∧
      NoPrime (bits / 2) 7 (source.entropy.drop (bytesForBits (bits / 2) * (i + 1))) ∧
      (generateKeyPair bits).runOn source =
        (refuse .entropyFailure,
          ⟨leftover (bytesForBits (bits / 2)) (source.entropy.drop (bytesForBits (bits / 2) * (i + 1))),
            .primeFound (bits / 2) 3 (i + 1) :: (source.requesting bits).events⟩)) ∨
    ∃ i p j q, FirstPrime (bits / 2) 3 source.entropy i p ∧
      FirstPrime (bits / 2) 7 (source.entropy.drop (bytesForBits (bits / 2) * (i + 1))) j q ∧
      (bitLength p = bits / 2 ∧ bitLength q = bits / 2 ∧ p ≠ q) ∧
      (ExactAt p → ExactAt q → Nat.Coprime ((p - 1) * (q - 1)) (p * q) ∧ ∃ sk : PrivateKey, sk.IsKeyOf p q ∧
        (generateKeyPair bits).runOn source =
          (.ok (sk.publicKey, sk),
            ⟨source.entropy.drop (bytesForBits (bits / 2) * (i + 1 + (j + 1))),
              .keyGenerated (2 * (bits / 2)) 1 :: .primeFound (bits / 2) 7 (j + 1) ::
                .primeFound (bits / 2) 3 (i + 1) :: (source.requesting bits).events⟩)) := by
  have hshort : 8 ≤ bits / 2 := by omega
  have hlong : bits / 2 ≤ 1024 := by omega
  -- a note in the log leaves the blocks as they are
  rw [← source.entropy_requesting bits]
  rcases exists_firstAccepted_or_noneAccepted (bytesForBits (bits / 2)) (primeOfBlock (bits / 2) residueOfP)
    (source.requesting bits).entropy with ⟨i, p, hp⟩ | hnone
  · rcases exists_firstAccepted_or_noneAccepted (bytesForBits (bits / 2)) (primeOfBlock (bits / 2) residueOfQ)
      ((source.requesting bits).entropy.drop (bytesForBits (bits / 2) * (i + 1))) with ⟨j, q, hq⟩ | hnone
    · obtain ⟨hcp, hpassp⟩ := FirstPrime.isCandidate hp (by omega) (by decide)
      obtain ⟨hcq, hpassq⟩ := FirstPrime.isCandidate hq (by omega) (by decide)
      refine Or.inr (Or.inr ⟨i, p, j, q, hp, hq,
        ⟨hcp.bitLength_eq (by omega), hcq.bitLength_eq (by omega), hcp.ne hcq⟩, fun hexactp hexactq => ?_⟩)
      have hpair := hcp.primePair hcq (by omega) (hexactp.mp hpassp) (hexactq.mp hpassq)
      obtain ⟨sk, hkey, hrun⟩ := runOn_drawKey_of_first hshort hlong hp hq hpair
      exact ⟨hpair.coprime_totient, sk, hkey, runOn_generateKeyPair_of_drawKey_eq_ok hmin (hrun 1)⟩
    · exact Or.inr (Or.inl ⟨i, p, hp, hnone,
        runOn_generateKeyPair_of_drawKey_eq_error hmin (runOn_drawKey_of_first_of_none hshort hlong hp hnone 1)⟩)
  · exact Or.inl ⟨hnone, runOn_generateKeyPair_of_drawKey_eq_error hmin (runOn_drawKey_of_none hshort hlong hnone 1)⟩

/-- The multiple of three is drawn in vain, and then the two primes of the example make the key. Nothing is left. -/
theorem generateKeyPair_one_attempt_sampleSource :
    (256 ≤ 257 ∧ 257 ≤ 2049) ∧ (ExactAt exampleP ∧ ExactAt exampleQ) ∧
      FirstPrime 128 3 PrivateKey.sampleSource.entropy 1 exampleP ∧
      FirstPrime 128 7 (PrivateKey.sampleSource.entropy.drop 32) 0 exampleQ ∧
      ∃ sk : PrivateKey, sk.IsKeyOf exampleP exampleQ ∧ (generateKeyPair 257).runOn PrivateKey.sampleSource =
        (.ok (sk.publicKey, sk),
          ⟨[], [.keyGenerated 256 1, .primeFound 128 7 1, .primeFound 128 3 2, .shortKeyRequested 257]⟩) := by
  have hp : FirstPrime 128 3 PrivateKey.sampleSource.entropy 1 exampleP :=
    ⟨by decide +kernel, by decide +kernel, by decide +kernel⟩
  have hq : FirstPrime 128 7 (PrivateKey.sampleSource.entropy.drop 32) 0 exampleQ :=
    ⟨by decide +kernel, by decide +kernel, by decide +kernel⟩
  have hlong : 256 ≤ 257 := by decide
  refine ⟨⟨hlong, by decide⟩, ⟨exactAt_exampleP, exactAt_exampleQ⟩, hp, hq, ?_⟩
  rcases generateKeyPair_one_attempt hlong (by decide) PrivateKey.sampleSource with
    ⟨hnone, -⟩ | ⟨i, p, hfirst, hnone, -⟩ | ⟨i, p, j, q, hfirst, hsecond, -, hkey⟩
  · exact absurd hnone hp.not_noneAccepted
  · obtain ⟨rfl, rfl⟩ := hp.unique hfirst
    exact absurd hnone hq.not_noneAccepted
  · obtain ⟨rfl, rfl⟩ := hp.unique hfirst
    obtain ⟨rfl, rfl⟩ := hq.unique hsecond
    obtain ⟨-, sk, hsk, hrun⟩ := hkey exactAt_exampleP exactAt_exampleQ
    have hleft : PrivateKey.sampleSource.entropy.drop 48 = [] := by decide +kernel
    refine ⟨sk, hsk, hrun.trans ?_⟩
    rw [← hleft]
    rfl

end

end Paillier
