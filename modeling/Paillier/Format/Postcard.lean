import Paillier.Format.Defect
import Paillier.Key.Private

/-!
# Keys in the postcard format

A compact binary form. A number is a sign byte, the length of its magnitude and the magnitude itself,
big-endian. The length is written in groups of seven bits, the lowest first, where the top bit of a byte
says that more follow. A public key is its modulus, a private key is `p` and then `q`.

The shortest form is written. Any length may be padded with empty groups when it is read, up to ten bytes
in all, and the magnitude may start with zeros. What comes after the key is not looked at.

## Main statements

* `scanVarint_varint` — a length that was written is read back, whatever follows.
-/

namespace Paillier

attribute [local instance] natPow

/-! ## Lengths in groups of seven bits -/

/-- A length in groups of seven bits. -/
def varint (n : Nat) : Bytes :=
  if n < 128 then [UInt8.ofNat n] else UInt8.ofNat (n % 128 + 128) :: varint (n / 128)
termination_by n
decreasing_by omega

/-- The most bytes of a length. -/
def varintBytes : Nat := 10

/-- Reads a length of at most `left` bytes. It has to fit 64 bits, so the tenth byte is at most one. -/
def scanVarint : (left : Nat) → Bytes → Readout (Nat × Bytes)
  | 0, _ => .error .malformed
  | _ + 1, [] => .error .truncated
  | left + 1, b :: rest =>
    if b.toNat < 128 then
      if left = 0 ∧ 1 < b.toNat then .error .malformed else .ok (b.toNat, rest)
    else do
      let (high, rest) ← scanVarint left rest
      return (b.toNat - 128 + 128 * high, rest)

/-- Reading a length that was written gives it back, whatever follows. -/
theorem scanVarint_varint (n : Nat) (rest : Bytes) (left : Nat) (h : n < 128 ^ (left + 1)) :
    scanVarint (left + 2) (varint n ++ rest) = .ok (n, rest) := by
  induction left generalizing n with
  | zero =>
    have hn : n < 128 := by simpa using h
    rw [varint, if_pos hn, List.singleton_append, scanVarint, UInt8.toNat_ofNat',
      Nat.mod_eq_of_lt (by omega), if_pos hn, if_neg (by omega)]
  | succ left ih =>
    rw [varint]
    split
    · next hn =>
      rw [List.singleton_append, scanVarint, UInt8.toNat_ofNat', Nat.mod_eq_of_lt (by omega),
        if_pos hn, if_neg (by omega)]
    · next hn =>
      have hb : (UInt8.ofNat (n % 128 + 128)).toNat = n % 128 + 128 := by
        rw [UInt8.toNat_ofNat', Nat.mod_eq_of_lt (by omega)]
      have hq : n / 128 < 128 ^ (left + 1) := by
        rw [Nat.div_lt_iff_lt_mul (by decide), ← Nat.pow_succ]
        exact h
      rw [List.cons_append, scanVarint, hb, if_neg (by omega), ih (n / 128) hq]
      simp only [bind, Except.bind, pure, Except.pure]
      congr 2
      omega

/-! ## Numbers -/

/-- The byte for a sign. -/
def Sign.toByte : Sign → UInt8
  | minus => 255
  | none => 0
  | plus => 1

/-- The sign that a byte stands for. -/
def Sign.ofByte? (b : UInt8) : Option Sign :=
  if b = 255 then some minus else if b = 0 then some none else if b = 1 then some plus else Option.none

/-- The form of a number. -/
def postcardOfNumber (a : Number) : Bytes :=
  let magnitude := bigEndian a.magnitude
  a.sign.toByte :: varint magnitude.length ++ magnitude

/-- Reads the magnitude of a number. -/
def scanMagnitude (data : Bytes) : Readout (Nat × Bytes) := do
  let (length, data) ← scanVarint varintBytes data
  if data.length < length then .error .truncated
  else
    let value ← (numberOfBytes (data.take length)).readout
    return (value.magnitude, data.drop length)

/-- Reads a number. The sign is taken as it stands, whatever the magnitude. -/
def scanSigned : Bytes → Readout (Number × Bytes)
  | [] => .error .truncated
  | b :: data =>
    match Sign.ofByte? b with
    | some sign => (scanMagnitude data).map fun (magnitude, rest) => (⟨sign, magnitude⟩, rest)
    | none => .error .malformed

/-! ## Keys -/

/-- A public key in the postcard format. -/
def PublicKey.toPostcard (pk : PublicKey) : Bytes := postcardOfNumber pk.modulus

/-- A private key in the postcard format. -/
def PrivateKey.toPostcard (sk : PrivateKey) : Bytes := postcardOfNumber sk.p ++ postcardOfNumber sk.q

/-- Reads a public key from the postcard format. -/
def PublicKey.ofPostcard (data : Bytes) : Readout PublicKey := do
  let (n, _) ← scanSigned data
  (ofModulus n).readout

/-- Reads a private key from the postcard format. -/
def PrivateKey.ofPostcard (data : Bytes) : Readout PrivateKey := do
  let (p, data) ← scanSigned data
  let (q, _) ← scanSigned data
  (ofPrimes p q).readout

end Paillier
