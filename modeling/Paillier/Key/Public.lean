import Paillier.Number.Residue
import Paillier.Number.Primality

/-!
# Public keys

A public key is its modulus `N`. Everything else about it (the square of `N`, the lengths of plaintexts and
ciphertexts) follows. `ofModulus` makes a key from any number that is odd, composite and long enough, by
magnitude; the square is formed once on the way, so a key exists only if `N²` can be held.

The sign of the modulus is kept. Nothing lies in `[0, N)` unless it is plus, so a key with another sign
accepts no plaintext, and one without a sign no ciphertext either.
-/

namespace Paillier

/-- A public key: the modulus `N`. -/
structure PublicKey where
  modulus : Number
deriving DecidableEq, Repr

namespace PublicKey

/-- The square of the modulus; ciphertexts are residues modulo this number. -/
def modulusSquared (pk : PublicKey) : Number :=
  ⟨pk.modulus.sign * pk.modulus.sign, pk.modulus.magnitude * pk.modulus.magnitude⟩

/-- The length of the modulus in bits. -/
def bits (pk : PublicKey) : Nat := bitLength pk.modulus.magnitude

/-- The shortest big-endian form of the modulus. -/
def modulusBytes (pk : PublicKey) : Bytes := bigEndian pk.modulus.magnitude

/-- The number of bytes of the longest plaintext. -/
def plaintextLength (pk : PublicKey) : Nat := byteLength pk.modulus.magnitude

/-- The number of bytes of the longest ciphertext. -/
def ciphertextLength (pk : PublicKey) : Nat := byteLength pk.modulusSquared.magnitude

/-- The key with modulus `n`, provided the square of `n` can be held. -/
def ofModulusUnchecked (n : Number) : Outcome PublicKey := do
  let _ ← product n n
  return ⟨n⟩

/-- The key with modulus `n`, which has to be odd, composite and of the minimum length. -/
def ofModulus (n : Number) : Outcome PublicKey :=
  if bitLength n.magnitude < minKeyBits then refuse .keyTooShort
  else if n.magnitude % 2 = 0 ∨ isPrime n.magnitude then refuse .invalidKey
  else ofModulusUnchecked n

/-- Paillier's function `L(x) = (x - 1) / N`, for an `x` that is `1` modulo `N`. -/
def quotientOf (pk : PublicKey) (x : Number) : Outcome Number :=
  if pk.modulus.isZero then fault .divisionByZero
  else if x.magnitude % pk.modulus.magnitude ≠ 1 then refuse .notOneModN
  else do
    let rest ← difference x 1
    return .withSign (rest.sign * pk.modulus.sign) (rest.magnitude / pk.modulus.magnitude)

/-! ## What the key accepts -/

/-- Refuses a plaintext or scalar outside `[0, N)`. -/
def checkPlaintext (pk : PublicKey) (m : Number) : Outcome Unit :=
  if isResidue m pk.modulus then .ok () else refuse .invalidPlaintext

/-- Refuses a nonce that is not a unit in `[1, N)`. -/
def checkNonce (pk : PublicKey) (r : Number) : Outcome Unit :=
  if isNonzeroResidue r pk.modulus && isCoprime r pk.modulus then .ok () else refuse .invalidRandomness

/-- Refuses a ciphertext that is outside `[0, N²)` or shares a factor with `N`. -/
def checkCiphertext (pk : PublicKey) (c : Number) : Outcome Unit :=
  if isResidue c pk.modulusSquared && isCoprime c pk.modulus then .ok () else refuse .invalidCiphertext

/-- Reads a plaintext from its big-endian bytes. -/
def plaintextOfBytes (pk : PublicKey) (data : Bytes) : Outcome Number :=
  if data.isEmpty then refuse .invalidParameter
  else if pk.plaintextLength < data.length then refuse .invalidPlaintext
  else do
    let m ← numberOfBytes data
    pk.checkPlaintext m
    return m

/-- Reads a ciphertext from its big-endian bytes. Whether it is a unit is left to its use. -/
def ciphertextOfBytes (pk : PublicKey) (data : Bytes) : Outcome Number :=
  if data.isEmpty then refuse .invalidParameter
  else if pk.ciphertextLength < data.length then refuse .invalidCiphertext
  else do
    let c ← numberOfBytes data
    if isResidue c pk.modulusSquared then return c else refuse .invalidCiphertext

end PublicKey

end Paillier
