import Paillier.Outcome
import Paillier.Number.Basic

/-!
# Numbers of bounded size

A number can be held if its magnitude has at most 4096 bits. A modulus `N` of 2048 bits is the largest
one whose square can be formed. Sums, differences and products that leave the range are a fault, and so are
byte strings that are too long, whatever their value.

Sums and differences have a rule of their own for an operand without a sign: it does not count, and the
other operand is the result as it stands. So a difference that is taken from a plain zero is the second
number itself. No modulus of real length meets that case (`difference_eq`).

Lengths have their bounds as well: they are counted in 64-bit words, and a block of bytes has less than
`2 ^ 63` of them.

## Main statements

* `bounded_eq_ok` — within the range nothing changes.
* `sum_eq`, `difference_eq` — between numbers that have a sign they are the usual ones.
* `paddedNumber_eq` — as long as the zeros are a block, padding is only a matter of the magnitude.
-/

namespace Paillier

attribute [local instance] natPow

/-- The most binary digits a magnitude can have. -/
def capacityBits : Nat := 4096

/-- The most bytes that can be read as one number. -/
def capacityBytes : Nat := capacityBits / 8

/-- The largest magnitude that can be held. -/
def largestMagnitude : Nat := 2 ^ capacityBits - 1

/-- Whether a number can be held. -/
def Fits (a : Number) : Prop := bitLength a.magnitude ≤ capacityBits

instance (a : Number) : Decidable (Fits a) := inferInstanceAs (Decidable (_ ≤ _))

/-- The number, if it can be held. -/
def bounded (a : Number) : Outcome Number := if Fits a then .ok a else fault .capacityExceeded

/-- The sum of two numbers; one without a sign does not count. -/
def sum (a b : Number) : Outcome Number :=
  if b.sign = .none then .ok a
  else if a.sign = .none then .ok b
  else bounded (.ofInt (a.toInt + b.toInt))

/-- The difference of two numbers; one without a sign does not count, so the other is the result. -/
def difference (a b : Number) : Outcome Number :=
  if b.sign = .none then .ok a
  else if a.sign = .none then .ok b
  else bounded (.ofInt (a.toInt - b.toInt))

/-- The product of two numbers, with the product of their signs. -/
def product (a b : Number) : Outcome Number := bounded ⟨a.sign * b.sign, a.magnitude * b.magnitude⟩

/-- The value of a byte string that is not too long. It carries a plus, as nothing else was read. -/
def numberOfBytes (data : Bytes) : Outcome Number :=
  if capacityBytes < data.length then fault .oversizedBytes else .ok (.positive (ofBigEndian data))

/-! ## Lengths -/

/-- From this number on a length cannot be counted. -/
def countLimit : Nat := 2 ^ (64 : Nat)

/-- The most bytes of one block. -/
def largestBlock : Nat := 2 ^ (63 : Nat) - 1

/-- A block of so many equal bytes. -/
def block (count : Nat) (fill : UInt8) : Outcome Bytes :=
  if largestBlock < count then fault .lengthOverflow else .ok (List.replicate count fill)

/-- The magnitude in exactly `len` bytes, if it fits; the zeros on its left have to be a block. -/
def paddedNumber (a : Number) (len : Nat) : Outcome Bytes :=
  if largestBlock < len - byteLength a.magnitude then fault .lengthOverflow
  else paddedBigEndian a.magnitude len

/-! ## Within the range -/

/-- A number can be held iff its magnitude is below `2 ^ 4096`. -/
theorem fits_iff {a : Number} : Fits a ↔ a.magnitude < 2 ^ capacityBits := bitLength_le_iff

theorem bounded_eq_ok {a : Number} (h : Fits a) : bounded a = .ok a := if_pos h

theorem bounded_eq_fault {a : Number} (h : ¬ Fits a) : bounded a = fault .capacityExceeded := if_neg h

theorem sum_eq {a b : Number} (ha : a.sign ≠ .none) (hb : b.sign ≠ .none) :
    sum a b = bounded (.ofInt (a.toInt + b.toInt)) := by
  rw [sum, if_neg hb, if_neg ha]

theorem difference_eq {a b : Number} (ha : a.sign ≠ .none) (hb : b.sign ≠ .none) :
    difference a b = bounded (.ofInt (a.toInt - b.toInt)) := by
  rw [difference, if_neg hb, if_neg ha]

/-- As long as the zeros are a block, padding is only a matter of the magnitude. -/
theorem paddedNumber_eq {a : Number} {len : Nat} (h : len - byteLength a.magnitude ≤ largestBlock) :
    paddedNumber a len = paddedBigEndian a.magnitude len := if_neg (Nat.not_lt.mpr h)

theorem paddedNumber_eq_fault {a : Number} {len : Nat} (h : largestBlock < len - byteLength a.magnitude) :
    paddedNumber a len = fault .lengthOverflow := if_pos h

theorem numberOfBytes_eq_ok {data : Bytes} (h : data.length ≤ capacityBytes) :
    numberOfBytes data = .ok (.positive (ofBigEndian data)) := if_neg (Nat.not_lt.mpr h)

end Paillier
