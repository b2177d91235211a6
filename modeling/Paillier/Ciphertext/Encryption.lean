import Paillier.Key.Public
import Paillier.Randomness.Sampling

/-!
# Encryption

With `g = N + 1` a plaintext `m` and a nonce `r` give the ciphertext `g ^ m * r ^ N` modulo `N²`. The first
factor is `1 + m * N` modulo `N²`, so it needs no power. The nonce is chosen by the caller or drawn from
entropy: uniformly from `[0, N)`, again and again until it is a unit.
-/

namespace Paillier.PublicKey

/-- The ciphertext of `m` with the nonce `r`. Neither is checked. -/
def encryptUnchecked (pk : PublicKey) (m r : Number) : Outcome Number := do
  let mN ← Residue.mul m pk.modulus pk.modulusSquared
  let mask ← Residue.pow r pk.modulus pk.modulusSquared
  Residue.mul (Residue.add mN 1 pk.modulusSquared) mask pk.modulusSquared

/-- The ciphertext of `m` with a nonce that the caller chooses. -/
def encryptWithNonce (pk : PublicKey) (m r : Number) : Outcome Number := do
  pk.checkPlaintext m
  pk.checkNonce r
  pk.encryptUnchecked m r

/-- One draw of a nonce, which has to be a unit. -/
def drawNonce (pk : PublicKey) : Sampler (Option Number) := do
  let r ← randomBelow pk.modulus
  if isCoprime r pk.modulus then return some r
  else
    Sampler.record .nonceNotUnit
    return none

theorem takes_drawNonce (pk : PublicKey) : pk.drawNonce.Takes := by
  refine Sampler.takes_bind (takes_randomBelow _) fun r => ?_
  split
  · exact Sampler.keeps_pure _
  · exact Sampler.keeps_bind (Sampler.keeps_record _) fun _ => Sampler.keeps_pure _

/-- A uniformly distributed unit of `[0, N)`. -/
def randomNonce (pk : PublicKey) : Sampler Number :=
  Sampler.untilSome (fun _ => pk.drawNonce) fun _ => pk.takes_drawNonce

/-- The ciphertext of `m` with a random nonce, and that nonce. -/
def encryptKeepingNonce (pk : PublicKey) (m : Number) : Sampler (Number × Number) := do
  pk.checkPlaintext m
  let r ← pk.randomNonce
  let c ← pk.encryptUnchecked m r
  return (c, r)

/-- The ciphertext of `m` with a random nonce. -/
def encrypt (pk : PublicKey) (m : Number) : Sampler Number := do
  let (c, _) ← pk.encryptKeepingNonce m
  return c

/-- The ciphertext of a 64-bit word. -/
def encryptWord (pk : PublicKey) (m : UInt64) : Sampler Number := pk.encrypt m.toNat

/-- The bytes of the ciphertext of a plaintext that is given as bytes. -/
def encryptBytes (pk : PublicKey) (plaintext : Bytes) : Sampler Bytes := do
  let m ← pk.plaintextOfBytes plaintext
  let c ← pk.encrypt m
  return bigEndian c.magnitude

end Paillier.PublicKey
