import Paillier.Key.Public

/-!
# Private keys

A private key holds two primes `p = 3` and `q = 7` modulo 8 of the same length, the number
`λ = (p - 1) * (q - 1)` and the inverse `μ` of `λ` modulo `N = p * q`. A ciphertext `c` is
opened as `L(c ^ λ) * μ` modulo `N`.
-/

namespace Paillier

/-- A private key with its public half. -/
structure PrivateKey where
  publicKey : PublicKey
  p : Number
  q : Number
  lambda : Number
  mu : Number
deriving DecidableEq, Repr

/-- The number `(p - 1) * (q - 1)`, computed as `n - p - q + 1` from left to right. -/
def totient (n p q : Number) : Outcome Number := do
  let withoutP ← difference n p
  let withoutBoth ← difference withoutP q
  sum withoutBoth 1

namespace PrivateKey

/-- The key made of these parts, if `λ` has an inverse modulo `n`. -/
def ofParts (p q n lambda : Number) : Outcome (Option PrivateKey) :=
  match Residue.inverse? lambda n with
  | none => .ok none
  | some mu => do
    let publicKey ← PublicKey.ofModulusUnchecked n
    return some { publicKey, p, q, lambda, mu }

/-- The key of two numbers that are not checked, if `λ` has an inverse. -/
def ofPrimesUnchecked (p q : Number) : Outcome (Option PrivateKey) := do
  let n ← product p q
  let lambda ← totient n p q
  ofParts p q n lambda

/--
The key of two primes. Every condition on them is checked, by magnitude; only to be equal they have to
have the same sign too.
-/
def ofPrimes (p q : Number) : Outcome PrivateKey :=
  if p = q ∨ bitLength p.magnitude ≠ bitLength q.magnitude then refuse .invalidKey
  else if bitLength p.magnitude + bitLength q.magnitude < minKeyBits then refuse .keyTooShort
  else if p.magnitude % 8 ≠ 3 ∨ q.magnitude % 8 ≠ 7 then refuse .invalidKey
  else if ¬ isPrime p.magnitude ∨ ¬ isPrime q.magnitude then refuse .invalidKey
  else do
    match ← ofPrimesUnchecked p q with
    | none => refuse .invalidKey
    | some sk => if sk.publicKey.bits < minKeyBits then refuse .keyTooShort else return sk

/-- The plaintext of a ciphertext, which is checked first. -/
def decrypt (sk : PrivateKey) (c : Number) : Outcome Number := do
  sk.publicKey.checkCiphertext c
  let a ← Residue.pow c sk.lambda sk.publicKey.modulusSquared
  let l ← sk.publicKey.quotientOf a
  Residue.mul l sk.mu sk.publicKey.modulus

/-- The plaintext of a ciphertext, both as big-endian bytes. A zero plaintext is one zero byte. -/
def decryptBytes (sk : PrivateKey) (data : Bytes) : Outcome Bytes := do
  let c ← sk.publicKey.ciphertextOfBytes data
  let m ← sk.decrypt c
  paddedNumber m (max 1 (byteLength m.magnitude))

/-- The plaintext of a ciphertext, if it is a 64-bit word. -/
def decryptWord (sk : PrivateKey) (c : Number) : Outcome UInt64 := do
  let m ← sk.decrypt c
  match m.toWord? with
  | some word => return word
  | none => refuse .invalidPlaintext

/-- The key after it has been wiped: only its public half is left. -/
def wipe (sk : PrivateKey) : PrivateKey :=
  { publicKey := sk.publicKey, p := 0, q := 0, lambda := 0, mu := 0 }

end PrivateKey

end Paillier
