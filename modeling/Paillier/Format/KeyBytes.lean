import Paillier.Format.Buffer
import Paillier.Key.Private

/-!
# Keys as bytes

* Public key: `length || N`, where `length` is the number of bytes of `N`.
* Private key: `length || p || q`, where both primes take `length` bytes, zeros on the left.

The length has four bytes, the least significant first; the numbers are big-endian. Reading trusts
nothing that can be derived: the length must fit the bytes that follow, and the key is made anew from its
numbers with every check. A form that is shorter than the smallest key's is refused before anything else.
-/

namespace Paillier

attribute [local instance] natPow

/-! ## The length in front -/

/-- The number of bytes that a length takes. -/
def lengthBytes : Nat := 4

/-- A length in four bytes, the least significant first. -/
def encodeLength (length : Nat) : Outcome Bytes :=
  if length < 2 ^ (32 : Nat) then
    .ok ((List.range lengthBytes).map fun i => UInt8.ofNat (length / 256 ^ i))
  else refuse .invalidParameter

/-- The value of bytes that come least significant first. -/
def decodeLength (data : Bytes) : Nat := ofBigEndian data.reverse

/-! ## Refusals while reading -/

/-- Why bytes were not taken as a key. -/
inductive Rejection where
  /-- There are fewer bytes than the smallest key has. -/
  | tooShort
  /-- The length in front does not fit the number of bytes that follow. -/
  | lengthMismatch (announced payload : Nat)
  /-- The numbers could not be read. -/
  | unreadable (cause : Failure)
  /-- The numbers do not make a key. -/
  | unsound (cause : Failure)
deriving DecidableEq, Repr

namespace Rejection

/-- The failure that the reader of the key gets. -/
def failure : Rejection → Failure
  | tooShort => .refused .keyTooShort
  | lengthMismatch .. => .refused .invalidKey
  | unreadable cause => cause
  | unsound cause => cause

/-- What is recorded about it. -/
def event? (kind : KeyKind) : Rejection → Option Event
  | lengthMismatch announced payload => some (.lengthMismatch kind announced payload)
  | unsound (.refused cause) => some (.keyRefused kind cause)
  | _ => none

end Rejection

/-- The length in front and the bytes that follow, if there are as many as the smallest key has. -/
def splitLength (data : Bytes) : Except Rejection (Nat × Bytes) :=
  if data.length < lengthBytes + minKeyBits / 8 then .error .tooShort
  else .ok (decodeLength (data.take lengthBytes), data.drop lengthBytes)

/-- Reads with a reader that explains itself, and records the explanation. -/
def recordingRejection {α : Type} (kind : KeyKind) (read : Except Rejection α) : Sampler α :=
  match read with
  | .ok a => return a
  | .error rejection => do
    if let some event := rejection.event? kind then Sampler.record event
    throw rejection.failure

/-! ## Public keys -/

namespace PublicKey

/-- The bytes of a public key. -/
def toBytes (pk : PublicKey) : Outcome Bytes := do
  let n ← paddedNumber pk.modulus (byteLength pk.modulus.magnitude)
  let front ← encodeLength n.length
  return front ++ n

/-- Writes the bytes of a public key to the front of a buffer. -/
def writeTo (pk : PublicKey) (buffer : Bytes) : Outcome (WriteOutcome × Bytes) := do
  return writeInto (← pk.toBytes) buffer

/-- Reads a public key, or says why not. -/
def parse (data : Bytes) : Except Rejection PublicKey := do
  let (length, payload) ← splitLength data
  if length ≠ payload.length then .error (.lengthMismatch length payload.length)
  else
    let n ← (numberOfBytes payload).mapError .unreadable
    (ofModulus n).mapError .unsound

/-- Reads a public key. -/
def ofBytes (data : Bytes) : Outcome PublicKey := (parse data).mapError Rejection.failure

/-- Reads a public key and records why it was rejected. -/
def load (data : Bytes) : Sampler PublicKey := recordingRejection .publicKey (parse data)

end PublicKey

/-! ## Private keys -/

namespace PrivateKey

/-- The bytes of a private key. -/
def toBytes (sk : PrivateKey) : Outcome Bytes := do
  let length := max (byteLength sk.p.magnitude) (byteLength sk.q.magnitude)
  let p ← paddedNumber sk.p length
  let q ← paddedNumber sk.q length
  let front ← encodeLength length
  return front ++ p ++ q

/-- Writes the bytes of a private key to the front of a buffer. -/
def writeTo (sk : PrivateKey) (buffer : Bytes) : Outcome (WriteOutcome × Bytes) := do
  return writeInto (← sk.toBytes) buffer

/-- Reads a private key, or says why not. -/
def parse (data : Bytes) : Except Rejection PrivateKey := do
  let (length, payload) ← splitLength data
  if 2 * length ≠ payload.length then .error (.lengthMismatch length payload.length)
  else
    let p ← (numberOfBytes (payload.take length)).mapError .unreadable
    let q ← (numberOfBytes (payload.drop length)).mapError .unreadable
    (ofPrimes p q).mapError .unsound

/-- Reads a private key. -/
def ofBytes (data : Bytes) : Outcome PrivateKey := (parse data).mapError Rejection.failure

/-- Reads a private key and records why it was rejected. -/
def load (data : Bytes) : Sampler PrivateKey := recordingRejection .privateKey (parse data)

end PrivateKey

end Paillier
