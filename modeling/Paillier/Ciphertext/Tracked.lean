import Paillier.Format.Buffer

/-!
# Ciphertexts with their nonce

Some proofs of correct encryption have to reveal the nonce later, so it is kept beside the ciphertext
until then, and wiped afterwards.
-/

namespace Paillier

/-- A ciphertext and the nonce it was made with. -/
structure TrackedCiphertext where
  ciphertext : Number
  nonce : Number
deriving DecidableEq, Repr

namespace TrackedCiphertext

/-- The shortest big-endian form of the ciphertext. -/
def bytes (tracked : TrackedCiphertext) : Bytes := bigEndian tracked.ciphertext.magnitude

/-- Writes the ciphertext to the front of a buffer. -/
def writeTo (tracked : TrackedCiphertext) (buffer : Bytes) : WriteOutcome × Bytes :=
  writeInto tracked.bytes buffer

/-- The value after the nonce has been wiped. -/
def wipe (tracked : TrackedCiphertext) : TrackedCiphertext := { tracked with nonce := 0 }

end TrackedCiphertext

/-- Encrypts a plaintext and keeps the nonce. -/
def PublicKey.encryptTracked (pk : PublicKey) (m : Number) : Sampler TrackedCiphertext := do
  let (ciphertext, nonce) ← pk.encryptKeepingNonce m
  return { ciphertext, nonce }

/-- Encrypts a plaintext given as bytes and keeps the nonce. -/
def PublicKey.encryptBytesTracked (pk : PublicKey) (plaintext : Bytes) : Sampler TrackedCiphertext := do
  let m ← pk.plaintextOfBytes plaintext
  pk.encryptTracked m

end Paillier
