import Paillier.Number.Double
import Paillier.Format.Json.Text

/-!
# Scanning JSON: numbers

No key holds a bare number, so a number is only taken, never turned into a value. One that is looked at
must fit a double; one that nobody asked for may be of any size, and its end counts as a defect of its
grammar even where the text ends.

Whether a number fits is found out in double precision itself. Its first digits make a 64-bit significand,
which is rounded, multiplied by the rounded power of ten and rounded again; close to the limit the result
differs from that of the number itself.

## Main statements

* `skipNumber_length` — a number is taken from the text.
-/

namespace Paillier.Json

attribute [local instance] natPow

/-! ## The size of a number -/

/-- The value of a digit. -/
def digitValue (c : Char) : Nat := c.toNat - 48

/-- From this value on exponents are not told apart; the digits of no text can make up for it. -/
def powerLimit : Nat := 10 ^ (18 : Nat)

/-- The value of the digits of an exponent, up to the limit. -/
def powerValue (digits : List Char) : Nat :=
  digits.foldl (fun n c => min (10 * n + digitValue c) powerLimit) 0

/-- From this number on a significand is too long. -/
def significandLimit : Nat := 2 ^ (64 : Nat)

/-- Appends digits to a significand up to the first that does not fit. The second part is what is left. -/
def appendDigits (significand : Nat) : List Char → Nat × List Char
  | [] => (significand, [])
  | c :: digits =>
    let longer := 10 * significand + digitValue c
    if longer < significandLimit then appendDigits longer digits else (significand, c :: digits)

/-- The parts of a numeral: the digits before and after the point, and the exponent. -/
structure Numeral where
  whole : List Char
  fraction : List Char
  power : Int

/-- The largest power of ten that is a double. -/
def largestPower : Nat := 308

/--
Whether a number is too large for a double. Digits before the point that do not fit the significand raise
the exponent, those after the point are passed over; each goes on from the significand as it stands.
-/
def Numeral.isHuge (numeral : Numeral) : Bool :=
  let (significand, tooMany) := appendDigits 0 numeral.whole
  let (significand, tooFine) := appendDigits significand numeral.fraction
  let exponent := numeral.power + tooMany.length - (numeral.fraction.length - tooFine.length : Nat)
  if significand = 0 ∨ exponent < 0 then false
  else if largestPower < exponent then true
  else
    let scale := roundToDouble (10 ^ exponent.toNat)
    decide (doubleLimit ≤ roundToDouble (roundToDouble significand * scale))

/-! ## Taking a number -/

/-- At least one digit. Where they are missing, the end of the text is too early unless it is skipped. -/
def scanDigits (lenient : Bool) (s : List Char) : Readout (List Char × List Char) :=
  match s.takeWhile Char.isDigit with
  | [] => .error (if s.isEmpty && !lenient then .truncated else .malformed)
  | digits => .ok (digits, s.dropWhile Char.isDigit)

/-- The digits after the point, if there is one. -/
def scanFraction (lenient : Bool) : List Char → Readout (List Char × List Char)
  | '.' :: s => scanDigits lenient s
  | s => .ok ([], s)

/-- The digits of an exponent after its sign. -/
def scanPower (lenient : Bool) : List Char → Readout (Int × List Char)
  | '-' :: s => (scanDigits lenient s).map fun (digits, rest) => (-(powerValue digits : Int), rest)
  | '+' :: s => (scanDigits lenient s).map fun (digits, rest) => (powerValue digits, rest)
  | s => (scanDigits lenient s).map fun (digits, rest) => (powerValue digits, rest)

/-- The exponent, if there is one. -/
def scanExponent (lenient : Bool) : List Char → Readout (Int × List Char)
  | 'e' :: s => scanPower lenient s
  | 'E' :: s => scanPower lenient s
  | s => .ok (0, s)

/-- The digits before the point: a zero stands alone. -/
def scanWhole (lenient : Bool) (s : List Char) : Readout (List Char × List Char) := do
  let (digits, rest) ← scanDigits lenient s
  if digits.head? = some '0' ∧ 1 < digits.length then .error .malformed else return (digits, rest)

/-- Takes a number, whose minus sign has been taken. One that is looked at must not be huge. -/
def skipNumber (lenient : Bool) (s : List Char) : Readout (List Char) := do
  let (whole, s) ← scanWhole lenient s
  let (fraction, s) ← scanFraction lenient s
  let (power, s) ← scanExponent lenient s
  if !lenient && Numeral.isHuge ⟨whole, fraction, power⟩ then .error .malformed
  else return s

/-! ## What is taken -/

theorem scanDigits_length {lenient : Bool} {s digits rest : List Char}
    (h : scanDigits lenient s = .ok (digits, rest)) : rest.length < s.length := by
  unfold scanDigits at h
  split at h
  · cases h
  · next hne =>
    simp only [Except.ok.injEq, Prod.mk.injEq] at h
    have hlen := congrArg List.length (List.takeWhile_append_dropWhile (p := Char.isDigit) (l := s))
    rw [List.length_append, h.2] at hlen
    have hpos : 0 < (s.takeWhile Char.isDigit).length := List.length_pos_iff.mpr hne
    omega

theorem scanFraction_length {lenient : Bool} {s digits rest : List Char}
    (h : scanFraction lenient s = .ok (digits, rest)) : rest.length ≤ s.length := by
  unfold scanFraction at h
  split at h
  · exact Nat.le_succ_of_le (Nat.le_of_lt (scanDigits_length h))
  · cases h
    exact Nat.le_refl _

theorem scanPower_length {lenient : Bool} {s rest : List Char} {power : Int}
    (h : scanPower lenient s = .ok (power, rest)) : rest.length < s.length := by
  unfold scanPower at h
  split at h <;> obtain ⟨⟨digits, t⟩, hd, he⟩ := map_eq_ok.mp h <;> cases he
  · exact Nat.lt_succ_of_lt (scanDigits_length hd)
  · exact Nat.lt_succ_of_lt (scanDigits_length hd)
  · exact scanDigits_length hd

theorem scanExponent_length {lenient : Bool} {s rest : List Char} {power : Int}
    (h : scanExponent lenient s = .ok (power, rest)) : rest.length ≤ s.length := by
  unfold scanExponent at h
  split at h
  · exact Nat.le_succ_of_le (Nat.le_of_lt (scanPower_length h))
  · exact Nat.le_succ_of_le (Nat.le_of_lt (scanPower_length h))
  · cases h
    exact Nat.le_refl _

theorem scanWhole_length {lenient : Bool} {s digits rest : List Char}
    (h : scanWhole lenient s = .ok (digits, rest)) : rest.length < s.length := by
  obtain ⟨⟨digits', t⟩, hd, h⟩ := bind_eq_ok.mp h
  dsimp only at h
  split at h
  · cases h
  · cases h
    exact scanDigits_length hd

theorem skipNumber_length {lenient : Bool} {s rest : List Char}
    (h : skipNumber lenient s = .ok rest) : rest.length < s.length := by
  obtain ⟨⟨whole, s₁⟩, h₁, h⟩ := bind_eq_ok.mp h
  obtain ⟨⟨fraction, s₂⟩, h₂, h⟩ := bind_eq_ok.mp h
  obtain ⟨⟨power, s₃⟩, h₃, h⟩ := bind_eq_ok.mp h
  dsimp only at h
  split at h
  · cases h
  · cases h
    exact Nat.lt_of_le_of_lt (scanExponent_length h₃)
      (Nat.lt_of_le_of_lt (scanFraction_length h₂) (scanWhole_length h₁))

end Paillier.Json
