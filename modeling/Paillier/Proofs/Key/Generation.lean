import Paillier.Key.Generation
import Paillier.Proofs.Key.Acceptance
import Paillier.Proofs.Randomness.Prime

/-!
# What key generation makes

Two primes that were drawn are put together on a path of their own, without the checks that numbers from outside
have to pass. The path leads to the same keys: a key that is generated is the key that its primes make when they are
checked, and its modulus makes its public half.

## Main statements

* `yields_joinPrimes` — what the unchecked path gives for two primes.
* `yields_generateKey` — the only thing that can go wrong is that the entropy ends.
* `ofPrimes_of_generateKeyPair` — a generated key pair passes every check.
-/

namespace Paillier

open Number (positive)

/-! ## Two primes that were drawn -/

/-- Where the modulus can be squared, only the inverse may be missing. -/
theorem PrivateKey.exists_ofParts_eq_ok (p q lambda : Number) {n : Number}
    (hfits : n.magnitude * n.magnitude < 2 ^ capacityBits) : ∃ sk?, ofParts p q n lambda = .ok sk? := by
  unfold ofParts
  split
  · exact ⟨none, rfl⟩
  · rw [PublicKey.ofModulusUnchecked_eq_ok_iff.mpr ⟨hfits, rfl⟩]
    exact ⟨_, rfl⟩

/-- **Joining two primes gives the key that they make without checks, or none.** -/
theorem yields_joinPrimes {p q : Nat} (hp : 3 ≤ p) (hq : 3 ≤ q) (hfits : p * q * (p * q) < 2 ^ capacityBits)
    (attempt count : Nat) :
    (joinPrimes p q attempt).Yields count fun found =>
      ∀ sk ∈ found, PrivateKey.ofPrimesUnchecked (positive p) (positive q) = .ok (some sk) := by
  have hcap : p * q < 2 ^ capacityBits := Nat.lt_of_le_of_lt (Nat.le_mul_self _) hfits
  unfold joinPrimes
  split
  · exact Sampler.yields_pure fun sk hsk => nomatch hsk
  rw [Number.ofNat_of_pos (by omega), Number.ofNat_of_pos (by omega)]
  refine Sampler.Yields.bind_outcome (product_positive hcap) ?_
  refine Sampler.Yields.bind_outcome (totient_positive hp hq hcap) ?_
  split
  · exact (Sampler.yields_record _).bind fun _ _ => Sampler.yields_pure fun sk hsk => nomatch hsk
  obtain ⟨sk?, hparts⟩ := PrivateKey.exists_ofParts_eq_ok (positive p) (positive q)
    (positive ((p - 1) * (q - 1))) (n := positive (p * q)) hfits
  refine Sampler.Yields.bind_outcome hparts ?_
  cases sk? with
  | none => exact Sampler.yields_pure fun sk hsk => nomatch hsk
  | some sk =>
    refine (Sampler.yields_record _).bind fun _ _ => Sampler.yields_pure ?_
    rintro _ ⟨⟩
    rw [PrivateKey.ofPrimesUnchecked, product_positive hcap, ok_bind, totient_positive hp hq hcap, ok_bind, hparts]

/-- The key is put together from two random primes of `primeBits` bits. -/
def PrivateKey.IsDrawn (primeBits : Nat) (sk : PrivateKey) : Prop :=
  ∃ p q : Nat, (IsCandidate primeBits 3 p ∧ isPrime p = true) ∧ (IsCandidate primeBits 7 q ∧ isPrime q = true) ∧
    ofPrimesUnchecked (positive p) (positive q) = .ok (some sk)

/-! ## Key generation -/

section

variable {bits primeBits : Nat}

/-- The product of two candidates of at most 1024 bits can be squared. -/
theorem IsCandidate.mul_self_lt {residue other p q : Nat} (hp : IsCandidate primeBits residue p)
    (hq : IsCandidate primeBits other q) (hmin : 2 ≤ primeBits) (hmax : primeBits ≤ 1024) :
    p * q * (p * q) < 2 ^ capacityBits := by
  rw [mul_self_lt_capacity_iff, ← bitLength_le_iff, hp.bitLength_mul hq hmin]
  omega

theorem yields_drawKey (hmin : 8 ≤ primeBits) (hmax : primeBits ≤ 1024) (attempt : Nat) :
    (drawKey primeBits attempt).Yields (bytesForBits primeBits) fun found =>
      ∀ sk ∈ found, sk.IsDrawn primeBits := by
  have hcapacity : primeBits ≤ capacityBits := Nat.le_trans hmax (by decide)
  refine (yields_randomPrime hmin hcapacity (by decide) (by decide)).bind fun p hp => ?_
  refine (yields_randomPrime hmin hcapacity (by decide) (by decide)).bind fun q hq => ?_
  have hthree : 3 ≤ p := by
    have := hp.1.residue_eq
    unfold residueOfP at this
    omega
  have hseven : 7 ≤ q := by
    have := hq.1.residue_eq
    unfold residueOfQ at this
    omega
  have hfits := hp.1.mul_self_lt hq.1 (by omega) hmax
  refine (yields_joinPrimes hthree (by omega) hfits attempt _).mono fun found hfound sk hsk => ?_
  exact ⟨p, q, hp, hq, hfound sk hsk⟩

/-- **A generated key is put together from two random primes, and nothing but the end of the entropy prevents it.** -/
theorem yields_generateKey (hmin : 256 ≤ bits) (hmax : bits ≤ 2049) :
    (generateKey bits).Yields (bytesForBits (bits / 2)) fun sk => sk.IsDrawn (bits / 2) := by
  have hsearch := Sampler.Yields.untilSome (takes_drawKey (bits / 2)) fun attempt =>
    yields_drawKey (by omega) (by omega) attempt
  have hlong : ¬ bits < minKeyBits := Nat.not_lt.mpr hmin
  rw [generateKey, if_neg hlong]
  split
  · exact (Sampler.yields_record _).bind fun _ _ => hsearch
  · exact hsearch

end

/-! ## Generated keys are keys of their primes -/

namespace PrivateKey

variable {bits primeBits : Nat} {pk : PublicKey} {sk : PrivateKey}

/-- **The unchecked path leads to the key that the checked one leads to**, as long as the modulus is not too short. -/
theorem isKeyOf_of_ofPrimesUnchecked {p q : Nat} (hpair : PrimePair p q)
    (hfits : p * q * (p * q) < 2 ^ capacityBits) (hlong : 2 ^ 255 ≤ p * q) (hp : isPrime p = true)
    (hq : isPrime q = true) (h : ofPrimesUnchecked (positive p) (positive q) = .ok (some sk)) :
    sk.IsKeyOf p q ∧ ofPrimes p q = .ok sk := by
  obtain ⟨sk', hkey, hchecked⟩ := ofPrimes_of_primePair hpair hfits hp hq
  rw [if_neg (Nat.not_lt.mpr hlong)] at hchecked
  -- both paths put the same parts together
  obtain ⟨-, -, -, -, -, hunchecked, -⟩ := ofPrimes_eq_ok hchecked
  rw [h] at hunchecked
  cases hunchecked
  rw [Number.ofNat_of_pos hpair.prime_p.pos, Number.ofNat_of_pos hpair.prime_q.pos]
  exact ⟨hkey, hchecked⟩

/--
**A generated key pair passes every check that a key from outside has to pass.**

The primes have half the requested length each, the modulus has twice that length, and the key is the one that its
primes make; the public half is what its modulus makes.
-/
theorem ofPrimes_of_generateKeyPair (hmin : 256 ≤ bits) (hmax : bits ≤ 2049) {source rest : Source}
    (generated : (generateKeyPair bits).runOn source = (.ok (pk, sk), rest)) (hp : ExactAt sk.p.magnitude)
    (hq : ExactAt sk.q.magnitude) (hpq : ExactAt (sk.p.magnitude * sk.q.magnitude)) :
    ∃ p q : Nat, (p.Prime ∧ bitLength p = bits / 2 ∧ p % 8 = 3) ∧
      (q.Prime ∧ bitLength q = bits / 2 ∧ q % 8 = 7) ∧ bitLength (p * q) = 2 * (bits / 2) ∧
      sk.IsKeyOf p q ∧ sk.publicKey.modulusSquared = positive ((p * q) ^ 2) ∧ pk = sk.publicKey ∧
      ofPrimes p q = .ok sk ∧ PublicKey.ofModulus (p * q : Nat) = .ok pk := by
  obtain ⟨sk', middle, hrun, hpk⟩ := Sampler.runOn_bind_eq_ok.mp generated
  cases hpk
  obtain ⟨p, q, ⟨hcp, hpassp⟩, ⟨hcq, hpassq⟩, hunchecked⟩ :=
    (yields_generateKey hmin hmax).of_runOn_eq_ok hrun
  obtain ⟨hsp, hsq⟩ := primes_of_ofPrimesUnchecked hunchecked
  rw [hsp, hsq] at hpq
  rw [hsp] at hp
  rw [hsq] at hq
  have hlenp := hcp.bitLength_eq (by omega)
  have hlenq := hcq.bitLength_eq (by omega)
  have hlen := hcp.bitLength_mul hcq (by omega)
  have hpair : PrimePair p q :=
    ⟨hp.mp hpassp, hq.mp hpassq, hlenp.trans hlenq.symm, hcp.residue_eq, hcq.residue_eq⟩
  have hfits := hcp.mul_self_lt hcq (by omega) (by omega)
  have hlong : 2 ^ 255 ≤ p * q := by
    rw [← lt_bitLength_iff, hlen]
    omega
  obtain ⟨hkey, hchecked⟩ := isKeyOf_of_ofPrimesUnchecked hpair hfits hlong hpassp hpassq hunchecked
  refine ⟨p, q, ⟨hpair.prime_p, hlenp, hpair.residue_p⟩, ⟨hpair.prime_q, hlenq, hpair.residue_q⟩, hlen, hkey, ?_,
    rfl, hchecked, ?_⟩
  · rw [PublicKey.modulusSquared, hkey.modulus_eq, Nat.pow_two]
    rfl
  · rw [← PublicKey.ofModulus_positive]
    exact hkey.ofModulus_eq_ok hpair hfits hlong hpq

/-- Three blocks of entropy: a multiple of three, which is drawn in vain, and the two primes of the example. -/
def sampleSource : Source := ⟨List.replicate 16 0 ++ bigEndian exampleP ++ bigEndian exampleQ, []⟩

/-- They are enough for a key pair, here of an odd length. -/
theorem ofPrimes_of_generateKeyPair_sampleSource :
    256 ≤ 257 ∧ 257 ≤ 2049 ∧ ∃ pk sk rest, (generateKeyPair 257).runOn sampleSource = (.ok (pk, sk), rest) ∧
      (ExactAt sk.p.magnitude ∧ ExactAt sk.q.magnitude ∧ ExactAt (sk.p.magnitude * sk.q.magnitude)) ∧
      ∃ p q : Nat, bitLength p = 128 ∧ bitLength q = 128 ∧ bitLength (p * q) = 256 ∧ ofPrimes p q = .ok sk ∧
        PublicKey.ofModulus (p * q : Nat) = .ok pk := by
  have hprimes : ((generateKeyPair 257).runOn sampleSource).1.map
      (fun pair => (pair.2.p.magnitude, pair.2.q.magnitude)) = .ok (exampleP, exampleQ) := by decide +kernel
  obtain ⟨⟨pk, sk⟩, hpair, hmagnitudes⟩ := map_eq_ok.mp hprimes
  obtain ⟨hsp, hsq⟩ := Prod.mk.inj hmagnitudes
  have hexact : ExactAt sk.p.magnitude ∧ ExactAt sk.q.magnitude ∧ ExactAt (sk.p.magnitude * sk.q.magnitude) := by
    rw [show sk.p.magnitude = exampleP from hsp, show sk.q.magnitude = exampleQ from hsq]
    exact ⟨exactAt_exampleP, exactAt_exampleQ, exactAt_example⟩
  obtain ⟨rest, hrun⟩ : ∃ rest, (generateKeyPair 257).runOn sampleSource = (.ok (pk, sk), rest) :=
    ⟨_, Prod.ext hpair rfl⟩
  obtain ⟨p, q, ⟨-, hlenp, -⟩, ⟨-, hlenq, -⟩, hlen, -, -, -, hchecked, hmodulus⟩ :=
    ofPrimes_of_generateKeyPair (by decide) (by decide) hrun hexact.1 hexact.2.1 hexact.2.2
  exact ⟨by decide, by decide, pk, sk, rest, hrun, hexact, p, q, hlenp, hlenq, hlen, hchecked, hmodulus⟩

end PrivateKey

end Paillier
