import Paillier.Ciphertext.Encryption

/-!
# Writing into a caller's buffer

A form is written to the front of a buffer as a whole or not at all. The outcome tells how many bytes
were written, or how many the buffer would have to hold; in that case the buffer is left as it was.
-/

namespace Paillier

/-- What became of a write. -/
inductive WriteOutcome where
  /-- So many bytes were written to the front of the buffer. -/
  | written (count : Nat)
  /-- Nothing was written: the buffer has to hold at least so many bytes. -/
  | required (count : Nat)
deriving DecidableEq, Repr

/-- Writes `data` to the front of `buffer` if it fits. The second part is the buffer afterwards. -/
def writeInto (data buffer : Bytes) : WriteOutcome × Bytes :=
  if buffer.length < data.length then (.required data.length, buffer)
  else (.written data.length, data ++ buffer.drop data.length)

/--
Encrypts a plaintext given as bytes into `buffer`. A buffer that could not hold every ciphertext is left
alone and costs no entropy.
-/
def PublicKey.encryptInto (pk : PublicKey) (plaintext buffer : Bytes) :
    Sampler (WriteOutcome × Bytes) := do
  let m ← pk.plaintextOfBytes plaintext
  if buffer.length < pk.ciphertextLength then return (.required pk.ciphertextLength, buffer)
  else
    let c ← pk.encrypt m
    return writeInto (bigEndian c.magnitude) buffer

end Paillier
