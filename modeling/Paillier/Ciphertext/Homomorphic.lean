import Paillier.Ciphertext.Encryption

/-!
# Arithmetic on ciphertexts

Whoever holds the public key can add, subtract and scale what the ciphertexts hold, without learning it.
Operands are never trusted: each ciphertext must be a unit in `[0, N²)` and each scalar lie in
`[0, N)` before anything is computed.
-/

namespace Paillier.PublicKey

/-- The inverse of a ciphertext modulo `N²`. -/
def invertCiphertext (pk : PublicKey) (c : Number) : Outcome Number :=
  match Residue.inverse? c pk.modulusSquared with
  | some i => .ok i
  | none => refuse .notInvertible

/-- A ciphertext of the sum. -/
def add (pk : PublicKey) (c₁ c₂ : Number) : Outcome Number := do
  pk.checkCiphertext c₁
  pk.checkCiphertext c₂
  Residue.mul c₁ c₂ pk.modulusSquared

/-- A ciphertext of the difference. -/
def sub (pk : PublicKey) (c₁ c₂ : Number) : Outcome Number := do
  pk.checkCiphertext c₁
  pk.checkCiphertext c₂
  let inverse ← pk.invertCiphertext c₂
  Residue.mul c₁ inverse pk.modulusSquared

/-- A ciphertext of the sum with a known scalar, masked anew. -/
def addScalar (pk : PublicKey) (c k : Number) : Sampler Number := do
  pk.checkCiphertext c
  pk.checkPlaintext k
  let ck ← pk.encrypt k
  Residue.mul c ck pk.modulusSquared

/-- A ciphertext of the difference to a known scalar, masked anew. -/
def subScalar (pk : PublicKey) (c k : Number) : Sampler Number := do
  pk.checkCiphertext c
  pk.checkPlaintext k
  let ck ← pk.encrypt k
  let inverse ← pk.invertCiphertext ck
  Residue.mul c inverse pk.modulusSquared

/-- A ciphertext of the product with a known scalar. -/
def mulScalar (pk : PublicKey) (c k : Number) : Outcome Number := do
  pk.checkCiphertext c
  pk.checkPlaintext k
  Residue.pow c k pk.modulusSquared

/-- A ciphertext of the sum with a 64-bit word. -/
def addWord (pk : PublicKey) (c : Number) (k : UInt64) : Sampler Number := pk.addScalar c k.toNat

/-- A ciphertext of the difference to a 64-bit word. -/
def subWord (pk : PublicKey) (c : Number) (k : UInt64) : Sampler Number := pk.subScalar c k.toNat

/-- A ciphertext of the product with a 64-bit word. -/
def mulWord (pk : PublicKey) (c : Number) (k : UInt64) : Outcome Number := pk.mulScalar c k.toNat

end Paillier.PublicKey
