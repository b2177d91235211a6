import Paillier.Number.Capacity

/-!
# Hexadecimal text

Bytes are written as two lower-case digits each, and digits of both cases are read. A number is written
as its sign (a minus or nothing) and the bytes of its magnitude, so zero is the empty text and the count
of digits is even; reading is more generous and takes any count of digits up to the capacity of a number.
-/

namespace Paillier

/-- The lower-case digit of a value below 16. -/
def hexDigit (d : Nat) : Char := if d < 10 then Char.ofNat (48 + d) else Char.ofNat (87 + d)

/-- The value of a digit of either case. -/
def hexDigitValue? (c : Char) : Option Nat :=
  let code := c.toNat
  if 48 ≤ code ∧ code ≤ 57 then some (code - 48)
  else if 97 ≤ code ∧ code ≤ 102 then some (code - 87)
  else if 65 ≤ code ∧ code ≤ 70 then some (code - 55)
  else none

/-- Reading a digit that was written gives its value back. -/
theorem hexDigitValue?_hexDigit {d : Nat} (h : d < 16) : hexDigitValue? (hexDigit d) = some d := by
  have all : ∀ e ∈ List.range 16, hexDigitValue? (hexDigit e) = some e := by decide
  exact all d (List.mem_range.mpr h)

/-- The two digits of a byte. -/
def hexOfByte (b : UInt8) : List Char := [hexDigit (b.toNat / 16), hexDigit (b.toNat % 16)]

/-- The digits of a byte string. -/
def hexOfBytes (data : Bytes) : List Char := data.flatMap hexOfByte

/-- The value of a string of digits, which may be empty. -/
def hexValue? (digits : List Char) : Option Nat :=
  digits.foldlM (fun n c => (hexDigitValue? c).map (16 * n + ·)) 0

/-- The text of a number: its sign and the digits of the bytes of its magnitude. -/
def signedHex (a : Number) : List Char :=
  (if a.sign = .minus then ['-'] else []) ++ hexOfBytes (bigEndian a.magnitude)

/-- Reads the digits of a magnitude; there may be as many as a number can hold. -/
def magnitudeOfHex (digits : List Char) : Outcome Nat :=
  if 2 * capacityBytes < digits.length then fault .malformedNumeral
  else match hexValue? digits with
    | some n => .ok n
    | none => fault .malformedNumeral

/-- Reads the text of a number: at most one minus, then digits. Zero too gets the sign that was written. -/
def numberOfHex (text : List Char) : Outcome Number :=
  match text with
  | '-' :: digits => (magnitudeOfHex digits).map .negative
  | digits => (magnitudeOfHex digits).map .positive

end Paillier
