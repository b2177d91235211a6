import Paillier.Key.Private
import Paillier.Randomness.Sampling

/-!
# Key generation

The two primes have half the requested length each, so the modulus has `2 * (bits / 2)` bits. They are drawn
with `p = 3` and `q = 7` modulo 8, which makes `N` a Blum integer, and drawn again until they fit
together. Nothing limits the number of attempts but the entropy.
-/

namespace Paillier

/-- The residue of `p` modulo 8. -/
def residueOfP : Nat := 3

/-- The residue of `q` modulo 8. -/
def residueOfQ : Nat := 7

/-- The key of two primes that were drawn, if they fit together. -/
def joinPrimes (p q attempt : Nat) : Sampler (Option PrivateKey) := do
  if bitLength p ≠ bitLength q ∨ p = q then return none
  else
    let n ← product p q
    let lambda ← totient n p q
    if ¬ isCoprime lambda n then
      Sampler.record .totientNotCoprime
      return none
    else
      match ← PrivateKey.ofParts p q n lambda with
      | none => return none
      | some sk =>
        Sampler.record (.keyGenerated sk.publicKey.bits attempt)
        return some sk

/-- The key of two random primes of `primeBits` bits, if they fit together. -/
def drawKey (primeBits attempt : Nat) : Sampler (Option PrivateKey) := do
  let p ← randomPrime primeBits residueOfP
  let q ← randomPrime primeBits residueOfQ
  joinPrimes p q attempt

theorem keeps_joinPrimes (p q attempt : Nat) : (joinPrimes p q attempt).Keeps := by
  unfold joinPrimes
  split
  · exact Sampler.keeps_pure _
  · refine Sampler.keeps_bind (Sampler.keeps_outcome _) fun n => ?_
    refine Sampler.keeps_bind (Sampler.keeps_outcome _) fun lambda => ?_
    split
    · exact Sampler.keeps_bind (Sampler.keeps_record _) fun _ => Sampler.keeps_pure _
    · refine Sampler.keeps_bind (Sampler.keeps_outcome _) fun sk? => ?_
      split
      · exact Sampler.keeps_pure _
      · exact Sampler.keeps_bind (Sampler.keeps_record _) fun _ => Sampler.keeps_pure _

theorem takes_drawKey (primeBits attempt : Nat) : (drawKey primeBits attempt).Takes := by
  refine Sampler.takes_bind (takes_randomPrime _ _) fun p => ?_
  refine Sampler.keeps_bind (Sampler.keeps_of_takes (takes_randomPrime _ _)) fun q => ?_
  exact keeps_joinPrimes p q attempt

/-- A random private key, whose modulus has `2 * (bits / 2)` bits. -/
def generateKey (bits : Nat) : Sampler PrivateKey := do
  if bits < minKeyBits then Sampler.refuse .keyTooShort
  else
    if bits < recommendedKeyBits then Sampler.record (.shortKeyRequested bits)
    Sampler.untilSome (drawKey (bits / 2)) (takes_drawKey (bits / 2))

/-- A random key pair: the private key and, beside it, its public half. -/
def generateKeyPair (bits : Nat) : Sampler (PublicKey × PrivateKey) := do
  let sk ← generateKey bits
  return (sk.publicKey, sk)

end Paillier
