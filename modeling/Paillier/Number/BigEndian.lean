import Paillier.Outcome

/-!
# Magnitudes as big-endian bytes

A natural number is written with the most significant byte first. `bigEndian` is the shortest form (zero
has no bytes at all), `paddedBigEndian` fills it up with zeros on the left, `ofBigEndian` reads any form.

## Main statements

* `ofBigEndian_bigEndian` — reading the shortest form gives the number back.
* `ofBigEndian_replicate_zero_append` — zeros in front do not change the value.
* `ofBigEndian_stripLeadingZeros` — nor does taking them away.

## Termination

No fuel: `bigEndian` divides by 256 until nothing is left, everything else follows the list.
-/

namespace Paillier


/-- A string of bytes. -/
abbrev Bytes := List UInt8

/-- The powers of natural numbers. They are meant by name, whatever other powers are known. -/
abbrev natPow : Pow Nat Nat := instPowNat

attribute [local instance] natPow

/-! ## Lengths -/

/-- The number of binary digits of `n`; zero has none. -/
def bitLength (n : Nat) : Nat := if n = 0 then 0 else n.log2 + 1

/-- The number of bytes that hold `bits` bits. -/
def bytesForBits (bits : Nat) : Nat := (bits + 7) / 8

/-- The number of bytes of `n`, computed from its length in bits. -/
def byteLength (n : Nat) : Nat := bytesForBits (bitLength n)

theorem bitLength_zero : bitLength 0 = 0 := rfl

/-- A number has at most `k` binary digits iff it is below `2 ^ k`. -/
theorem bitLength_le_iff {n k : Nat} : bitLength n ≤ k ↔ n < 2 ^ k := by
  unfold bitLength
  split
  · next h =>
    rw [h]
    exact ⟨fun _ => Nat.two_pow_pos k, fun _ => Nat.zero_le k⟩
  · next h => rw [Nat.succ_le_iff, Nat.log2_lt h]

/-- A number has more than `k` binary digits iff it is at least `2 ^ k`. -/
theorem lt_bitLength_iff {n k : Nat} : k < bitLength n ↔ 2 ^ k ≤ n := by
  rw [← Nat.not_le, bitLength_le_iff, Nat.not_lt]

/-! ## Reading -/

/-- The value of a byte string, most significant byte first. -/
def ofBigEndian (data : Bytes) : Nat := data.foldl (fun n b => 256 * n + b.toNat) 0

theorem foldl_ofBigEndian (data : Bytes) (n : Nat) :
    data.foldl (fun n b => 256 * n + b.toNat) n = n * 256 ^ data.length + ofBigEndian data := by
  unfold ofBigEndian
  induction data generalizing n with
  | nil => simp
  | cons b rest ih =>
    rw [List.foldl_cons, ih, List.foldl_cons, ih (256 * 0 + b.toNat), List.length_cons, Nat.pow_succ]
    rw [Nat.mul_zero, Nat.zero_add, Nat.add_mul, Nat.add_assoc]
    congr 1
    rw [Nat.mul_comm 256 n, Nat.mul_assoc, Nat.mul_comm 256]

theorem ofBigEndian_nil : ofBigEndian [] = 0 := rfl

theorem ofBigEndian_append (front back : Bytes) :
    ofBigEndian (front ++ back) = ofBigEndian front * 256 ^ back.length + ofBigEndian back := by
  show (front ++ back).foldl _ 0 = _
  rw [List.foldl_append, foldl_ofBigEndian back]
  rfl

theorem ofBigEndian_concat (front : Bytes) (b : UInt8) :
    ofBigEndian (front ++ [b]) = 256 * ofBigEndian front + b.toNat := by
  show (front ++ [b]).foldl _ 0 = _
  rw [List.foldl_append, List.foldl_cons, List.foldl_nil]
  rfl

theorem ofBigEndian_cons (b : UInt8) (rest : Bytes) :
    ofBigEndian (b :: rest) = b.toNat * 256 ^ rest.length + ofBigEndian rest := by
  rw [← List.singleton_append, ofBigEndian_append]
  simp [ofBigEndian]

/-- The value is below the number of byte strings of that length. -/
theorem ofBigEndian_lt (data : Bytes) : ofBigEndian data < 256 ^ data.length := by
  induction data with
  | nil => simp [ofBigEndian]
  | cons b rest ih =>
    rw [ofBigEndian_cons, List.length_cons, Nat.pow_succ, Nat.mul_comm _ 256]
    have hb : b.toNat ≤ 255 := Nat.le_of_lt_succ b.toNat_lt
    have := Nat.mul_le_mul_right (256 ^ rest.length) hb
    omega

/-- Zeros in front do not change the value. -/
theorem ofBigEndian_replicate_zero_append (k : Nat) (data : Bytes) :
    ofBigEndian (List.replicate k 0 ++ data) = ofBigEndian data := by
  induction k with
  | zero => rfl
  | succ k ih => rw [List.replicate_succ, List.cons_append, ofBigEndian_cons, ih]; simp

/-! ## Writing -/

/-- The shortest big-endian form of `n`; zero has no bytes. -/
def bigEndian (n : Nat) : Bytes :=
  if n = 0 then [] else bigEndian (n / 256) ++ [UInt8.ofNat n]
termination_by n
decreasing_by omega

/-- The bytes without the zeros they start with. -/
def stripLeadingZeros (data : Bytes) : Bytes := data.dropWhile (· == 0)

/-- The magnitude `n` in exactly `len` bytes, zeros on the left, if it fits. -/
def paddedBigEndian (n len : Nat) : Outcome Bytes :=
  let digits := stripLeadingZeros (bigEndian n)
  if len < digits.length then refuse .invalidParameter
  else .ok (List.replicate (len - digits.length) 0 ++ digits)

theorem bigEndian_zero : bigEndian 0 = [] := by rw [bigEndian]; rfl

theorem bigEndian_of_ne_zero {n : Nat} (h : n ≠ 0) :
    bigEndian n = bigEndian (n / 256) ++ [UInt8.ofNat n] := by rw [bigEndian, if_neg h]

/-- Reading the shortest form gives the number back. -/
theorem ofBigEndian_bigEndian (n : Nat) : ofBigEndian (bigEndian n) = n := by
  induction n using bigEndian.induct with
  | case1 => rw [bigEndian_zero, ofBigEndian_nil]
  | case2 n h ih =>
    rw [bigEndian_of_ne_zero h, ofBigEndian_concat, ih, UInt8.toNat_ofNat']
    omega

/-- Taking the zeros in front away does not change the value. -/
theorem ofBigEndian_stripLeadingZeros (data : Bytes) :
    ofBigEndian (stripLeadingZeros data) = ofBigEndian data := by
  unfold stripLeadingZeros
  induction data with
  | nil => rfl
  | cons b rest ih =>
    rw [List.dropWhile_cons]
    split
    · next h => rw [ih, ofBigEndian_cons, beq_iff_eq.mp h]; simp
    · rfl

/-! ## Words -/

/-- The magnitude as a 64-bit word, if it is one: its bytes are shifted in one after the other. -/
def wordOfMagnitude? (n : Nat) : Option UInt64 :=
  let digits := stripLeadingZeros (bigEndian n)
  if 8 < digits.length then none
  else some (digits.foldl (fun word b => (word <<< 8) ||| b.toUInt64) 0)

end Paillier
