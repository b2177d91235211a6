import Paillier.Proofs.Number.Primality
import Paillier.Proofs.Randomness.Count
import Paillier.Proofs.Randomness.Scratch

/-!
# Random primes are uniform

The bytes of a draw are edited until they have the shape that was asked for: so many bits, the two top ones set, and a
given residue modulo 8. The bits that the edits overwrite are free and all others are kept. So each number of that shape
is made from equally many blocks, and the primes among them are found equally often.

Which numbers are taken for primes is up to the test. It takes all primes, and where it takes none of the composite
candidates it makes no difference.

## Main statements

* `hasShape_iff_isCandidate` — the shape as an interval and a residue.
* `byteCount_candidateBytes` — each number of the shape is made from equally many blocks.
* `randomPrime_uniform` — what a random prime is, how much it takes, and that it is uniform.
-/

namespace Paillier

attribute [local instance] natPow

/-! ## Shape -/

/-- A number of exactly `bits` bits whose two top bits are set and that is `residue` modulo 8. -/
structure HasShape (bits residue c : Nat) : Prop where
  bitLength_eq : bitLength c = bits
  testBit_first : c.testBit (bits - 1)
  testBit_second : c.testBit (bits - 2)
  residue_eq : c % 8 = residue

section

variable {bits residue c p q : Nat}

/-- The two top bits of a number below `2 ^ (k + 2)`. -/
theorem testBit_testBit_iff {k : Nat} (hc : c < 2 ^ (k + 2)) :
    (c.testBit (k + 1) ∧ c.testBit k) ↔ 3 * 2 ^ k ≤ c := by
  have htop : c / 2 ^ k < 4 := by
    rw [Nat.div_lt_iff_lt_mul (Nat.two_pow_pos k)]
    exact Nat.lt_of_lt_of_le hc (by rw [Nat.pow_add, Nat.mul_comm])
  have hbits : ∀ x < 4, (x / 2 % 2 = 1 ∧ x % 2 = 1) ↔ 3 ≤ x := by decide
  rw [Nat.testBit_eq_decide_div_mod_eq, Nat.testBit_eq_decide_div_mod_eq, decide_eq_true_iff, decide_eq_true_iff,
    Nat.pow_succ, ← Nat.div_div_eq_div_mul, hbits _ htop, Nat.le_div_iff_mul_le (Nat.two_pow_pos k)]

/-- **The shape is an interval and a residue.** -/
theorem hasShape_iff_isCandidate (hbits : 2 ≤ bits) : HasShape bits residue c ↔ IsCandidate bits residue c := by
  obtain ⟨k, rfl⟩ := Nat.exists_eq_add_of_le' hbits
  constructor
  · rintro ⟨hlen, hfirst, hsecond, hresidue⟩
    have hlt : c < 2 ^ (k + 2) := bitLength_le_iff.mp (Nat.le_of_eq hlen)
    exact ⟨(testBit_testBit_iff hlt).mp ⟨hfirst, hsecond⟩, hlt, hresidue⟩
  · intro h
    obtain ⟨hfirst, hsecond⟩ := (testBit_testBit_iff h.lt).mpr h.top_le
    exact ⟨h.bitLength_eq hbits, hfirst, hsecond, h.residue_eq⟩

/-! ## Candidates of blocks -/

/-- What is between the two top bits and the three last ones is kept, and nothing else. -/
theorem primeCandidate_eq_iff (hc : IsCandidate bits residue c) (hbits : 5 ≤ bits) {x : Nat} :
    primeCandidate bits residue x = c ↔ x % 2 ^ (bits - 2) / 8 = (c - 3 * 2 ^ (bits - 2)) / 8 := by
  obtain ⟨k, rfl⟩ := Nat.exists_eq_add_of_le' hbits
  have htop : 2 ^ (k + 5 - 2) = 8 * 2 ^ k := by
    rw [show k + 5 - 2 = k + 3 by omega]
    ring
  have hle := hc.top_le
  have hresidue := hc.residue_eq
  rw [htop] at hle
  rw [primeCandidate, htop]
  omega

/-- **Each number of the shape is made from equally many blocks.** Five bits are overwritten, besides those above. -/
theorem byteCount_candidateBytes (hbits : 5 ≤ bits) (hresidue : residue < 8) (hc : HasShape bits residue c) :
    byteCount (bytesForBits bits) (fun block => ofBigEndian (candidateBytes bits residue block) = c) =
      2 ^ (8 * bytesForBits bits - bits + 5) := by
  have hcandidate := (hasShape_iff_isCandidate (by omega)).mp hc
  have hlong : bits ≤ 8 * bytesForBits bits := by
    unfold bytesForBits
    omega
  have hcount : 8 * bytesForBits bits - (bits - 2) = 8 * bytesForBits bits - bits + 2 := by omega
  obtain ⟨k, rfl⟩ := Nat.exists_eq_add_of_le' hbits
  have htop : 2 ^ (k + 5 - 2) = 8 * 2 ^ k := by
    rw [show k + 5 - 2 = k + 3 by omega]
    ring
  generalize hm : (c - 3 * 2 ^ (k + 5 - 2)) / 8 = m
  have hlt : m < 2 ^ k := by
    have hupper : c < 4 * (8 * 2 ^ k) := by
      calc c < 2 ^ (k + 5) := hcandidate.lt
        _ = 4 * (8 * 2 ^ k) := by ring
    rw [htop] at hm
    omega
  calc byteCount (bytesForBits (k + 5)) (fun block => ofBigEndian (candidateBytes (k + 5) residue block) = c)
      = byteCount (bytesForBits (k + 5)) (fun block => ofBigEndian block % 2 ^ (k + 5 - 2) / 8 = m) := by
        refine byteCount_congr fun block hlen => ?_
        rw [ofBigEndian_candidateBytes hbits hresidue hlen, primeCandidate_eq_iff hcandidate hbits, hm]
    _ = 8 * 2 ^ (8 * bytesForBits (k + 5) - (k + 5) + 2) := by
        rw [byteCount_mod (by omega) fun x => x / 8 = m, htop, ncard_div_eq hlt, hcount]
    _ = 2 ^ (8 * bytesForBits (k + 5) - (k + 5) + 5) := by ring

theorem hasShape_candidateBytes (hbits : 5 ≤ bits) (hresidue : residue < 8) {block : Bytes}
    (hlen : block.length = bytesForBits bits) :
    HasShape bits residue (ofBigEndian (candidateBytes bits residue block)) := by
  rw [hasShape_iff_isCandidate (by omega), ofBigEndian_candidateBytes hbits hresidue hlen]
  exact isCandidate_primeCandidate hbits hresidue _

end

/-! ## Random primes -/

section

variable {bits residue p : Nat} {block : Bytes}

/-- The prime that the edited bytes are, if they are one. -/
def primeOfBytes (bits residue : Nat) (block : Bytes) : Option Nat :=
  let candidate := ofBigEndian (candidateBytes bits residue block)
  if candidate.Prime then some candidate else none

/-- **The test decides as it should**, where it is right about the candidate. -/
theorem primeOfBlock_eq_primeOfBytes (hbits : 5 ≤ bits) (hresidue : residue < 8)
    (hlen : block.length = bytesForBits bits)
    (hexact : ExactAt (ofBigEndian (candidateBytes bits residue block))) :
    primeOfBlock bits residue block = primeOfBytes bits residue block := by
  rw [primeOfBlock, primeOfBytes, ← ofBigEndian_candidateBytes hbits hresidue hlen]
  exact if_congr hexact rfl rfl

theorem primeOfBlock_eq_some_iff (hbits : 5 ≤ bits) (hresidue : residue < 8)
    (hlen : block.length = bytesForBits bits) :
    primeOfBlock bits residue block = some p ↔
      isPrime p = true ∧ ofBigEndian (candidateBytes bits residue block) = p := by
  rw [primeOfBlock, ← ofBigEndian_candidateBytes hbits hresidue hlen]
  split
  · next hpass =>
    rw [Option.some.injEq]
    exact ⟨fun h => ⟨h ▸ hpass, h⟩, fun h => h.2⟩
  · next hfail =>
    simp only [reduceCtorEq, false_iff, not_and]
    rintro hpass rfl
    exact hfail hpass

/-- Whether they are primes or not, the numbers that pass the test are found. -/
theorem findsFirst_randomPrime (hbits : 8 ≤ bits) (hcapacity : bits ≤ capacityBits) (hresidue : residue < 8)
    (hodd : residue % 2 = 1) (source : Source) :
    (randomPrime bits residue).FindsFirst (bytesForBits bits) (primeOfBlock bits residue)
      (fun attempt => [.primeFound bits residue attempt]) (fun _ => []) source := by
  rw [randomPrime_eq_untilSome hbits hcapacity hresidue hodd]
  exact (triesBlocks_drawPrime hcapacity residue).findsFirst _ (bytesForBits_pos (by omega)) source

/-- **The numbers of the shape that pass the test are found equally often.** -/
theorem uniform_randomPrime (hbits : 8 ≤ bits) (hcapacity : bits ≤ capacityBits) (hresidue : residue < 8)
    (hodd : residue % 2 = 1) :
    (randomPrime bits residue).Uniform (bytesForBits bits) {p | HasShape bits residue p ∧ isPrime p = true} := by
  refine Sampler.FindsFirst.uniform (findsFirst_randomPrime hbits hcapacity hresidue hodd)
    (bytesForBits_pos (by omega)) (Nat.two_pow_pos (8 * bytesForBits bits - bits + 5)) ?_ ?_
  · rintro p ⟨hshape, hpass⟩
    rw [← byteCount_candidateBytes (by omega) hresidue hshape]
    refine byteCount_congr fun block hlen => ?_
    rw [primeOfBlock_eq_some_iff (by omega) hresidue hlen, and_iff_right hpass]
  · intro block p hlen hblock
    obtain ⟨hpass, rfl⟩ := (primeOfBlock_eq_some_iff (by omega) hresidue hlen).mp hblock
    exact ⟨hasShape_candidateBytes (by omega) hresidue hlen, hpass⟩

/--
**Random primes are exact and uniform**, for every length whose scratch space can be had and every odd residue.

The first prime among the candidates is found, and there is no other way to fail than that there is none. Every number of
the shape is made from equally many blocks, so every prime of the shape is possible, and all are equally likely. The
product of two of them has full length, whatever their residues.

The test passes every prime. It is assumed to pass no composite number among the candidates of the source.
-/
theorem randomPrime_uniform (hbits : 8 ≤ bits) (hcapacity : bits ≤ capacityBits) (hresidue : residue < 8)
    (hodd : residue % 2 = 1) :
    (∀ source : Source,
      (∀ i, bytesForBits bits * (i + 1) ≤ source.entropy.length →
        ExactAt (ofBigEndian (candidateBytes bits residue (blockAt (bytesForBits bits) source.entropy i)))) →
      (randomPrime bits residue).FindsFirst (bytesForBits bits) (primeOfBytes bits residue)
        (fun attempt => [.primeFound bits residue attempt]) (fun _ => []) source) ∧
    (∀ source p, ((randomPrime bits residue).runOn source).1 = .ok p →
      HasShape bits residue p ∧ (ExactAt p → p.Prime)) ∧
    (∀ other p q, HasShape bits residue p → HasShape bits other q → bitLength (p * q) = 2 * bits) ∧
    (∀ block, block.length = bytesForBits bits →
      HasShape bits residue (ofBigEndian (candidateBytes bits residue block))) ∧
    (∀ c, HasShape bits residue c →
      byteCount (bytesForBits bits) (fun block => ofBigEndian (candidateBytes bits residue block) = c) =
        2 ^ (8 * bytesForBits bits - bits + 5)) ∧
    ∀ p q, HasShape bits residue p → p.Prime → HasShape bits residue q → q.Prime →
      ∀ t, (randomPrime bits residue).streamCount (bytesForBits bits * t) p =
          (randomPrime bits residue).streamCount (bytesForBits bits * t) q ∧
        (0 < t → 0 < (randomPrime bits residue).streamCount (bytesForBits bits * t) p) := by
  have huniform := uniform_randomPrime hbits hcapacity hresidue hodd
  refine ⟨fun source hexact => ?_, fun source p hrun => ?_, fun other p q hp hq => ?_,
    fun block hlen => hasShape_candidateBytes (by omega) hresidue hlen,
    fun c hc => byteCount_candidateBytes (by omega) hresidue hc, fun p q hp hprimep hq hprimeq t => ?_⟩
  · refine (findsFirst_randomPrime hbits hcapacity hresidue hodd source).congr fun i hcomplete => ?_
    exact primeOfBlock_eq_primeOfBytes (by omega) hresidue (length_blockAt hcomplete) (hexact i hcomplete)
  · obtain ⟨hshape, hpass⟩ := huniform.mem source p hrun
    exact ⟨hshape, fun hexact => hexact.mp hpass⟩
  · rw [hasShape_iff_isCandidate (by omega)] at hp hq
    exact hp.bitLength_mul hq (by omega)
  · have hmemp : p ∈ {p | HasShape bits residue p ∧ isPrime p = true} := ⟨hp, isPrime_of_prime hprimep⟩
    have hmemq : q ∈ {p | HasShape bits residue p ∧ isPrime p = true} := ⟨hq, isPrime_of_prime hprimeq⟩
    exact ⟨huniform.equal t p hmemp q hmemq, fun ht => huniform.possible t ht p hmemp⟩

/--
With nine bits the two top ones are in different bytes. The first candidate, `387`, is a multiple of three, the second one
is the prime `419`, and the byte that is left is too short for another. The largest prime of the shape is as likely.
-/
theorem randomPrime_uniform_nineBits :
    (8 ≤ 9 ∧ 9 ≤ capacityBits ∧ 3 < 8 ∧ 3 % 2 = 1) ∧
      (∀ i, bytesForBits 9 * (i + 1) ≤ 5 →
        ExactAt (ofBigEndian (candidateBytes 9 3 (blockAt (bytesForBits 9) [0x00, 0x00, 0xff, 0x23, 0x07] i)))) ∧
      (HasShape 9 3 419 ∧ Nat.Prime 419) ∧ (HasShape 9 3 499 ∧ Nat.Prime 499) ∧
      (randomPrime 9 3).runOn ⟨[0x00, 0x00, 0xff, 0x23, 0x07], []⟩ = (.ok 419, ⟨[0x07], [.primeFound 9 3 2]⟩) ∧
      ∀ t, (randomPrime 9 3).streamCount (2 * t) 419 = (randomPrime 9 3).streamCount (2 * t) 499 := by
  have hprime419 : Nat.Prime 419 := by norm_num
  have hprime499 : Nat.Prime 499 := by norm_num
  have hexact387 : ExactAt 387 := exactAt_of_not_prime (by norm_num) (by decide +kernel)
  have hexact : ∀ i, bytesForBits 9 * (i + 1) ≤ 5 →
      ExactAt (ofBigEndian (candidateBytes 9 3 (blockAt (bytesForBits 9) [0x00, 0x00, 0xff, 0x23, 0x07] i))) := by
    intro i hi
    have hi : 2 * (i + 1) ≤ 5 := hi
    match i, hi with
    | 0, _ => exact hexact387
    | 1, _ => exact exactAt_of_prime hprime419
  have hshape419 : HasShape 9 3 419 := ⟨by decide, by decide, by decide, by decide⟩
  have hshape499 : HasShape 9 3 499 := ⟨by decide, by decide, by decide, by decide⟩
  have hbits : 8 ≤ 9 := by decide
  have hresidue : 3 < 8 := by decide
  obtain ⟨hfinds, -, -, -, -, hequal⟩ := randomPrime_uniform hbits (by decide) hresidue (by decide)
  have hfirst : FirstAccepted (bytesForBits 9) (primeOfBytes 9 3) [0x00, 0x00, 0xff, 0x23, 0x07] 1 419 :=
    ⟨by decide, by decide +kernel, by decide +kernel⟩
  exact ⟨by decide, hexact, ⟨hshape419, hprime419⟩, ⟨hshape499, hprime499⟩,
    ((hfinds ⟨[0x00, 0x00, 0xff, 0x23, 0x07], []⟩ hexact).eq_ok_iff _ _).mpr ⟨1, hfirst, rfl⟩,
    fun t => (hequal 419 499 hshape419 hprime419 hshape499 hprime499 t).1⟩

end

end Paillier
