import Mathlib.Data.List.Induction
import Mathlib.Tactic.SplitIfs
import Paillier.Format.Hexadecimal
import Paillier.Proofs.Number.BigEndian

/-!
# Numerals

A magnitude has many texts: zeros may stand in front, the count of digits may be odd, and digits of both cases may be
mixed. What is written is one of them. All of them are read as the same number, which carries a minus if one was written
and a plus otherwise, even in front of a zero.

## Main statements

* `hexValue?_hexOfBytes` — the digits of bytes have the value of the bytes.
* `isNumeral_signedHex` — what is written is a numeral.
* `IsNumeral.numberOfHex_eq` — the outcome of reading a numeral.
-/

namespace Paillier

attribute [local instance] natPow

/-! ## The value of digits -/

theorem hexDigitValue?_lt {c : Char} {d : Nat} (h : hexDigitValue? c = some d) : d < 16 := by
  unfold hexDigitValue? at h
  dsimp only at h
  split_ifs at h <;> cases h <;> omega

/-- The last digit counts once, the others sixteen times as much as without it. -/
theorem hexValue?_concat (digits : List Char) (c : Char) :
    hexValue? (digits ++ [c]) = (hexValue? digits).bind fun n => (hexDigitValue? c).map (16 * n + ·) := by
  unfold hexValue?
  rw [List.foldlM_append]
  refine bind_congr fun n => ?_
  rw [List.foldlM_cons]
  exact bind_pure _

theorem hexValue?_concat_eq_some {digits : List Char} {c : Char} {n : Nat} :
    hexValue? (digits ++ [c]) = some n ↔
      ∃ m, hexValue? digits = some m ∧ ∃ d, hexDigitValue? c = some d ∧ 16 * m + d = n := by
  rw [hexValue?_concat, Option.bind_eq_some_iff]
  simp only [Option.map_eq_some_iff]

theorem hexValue?_append_hexOfByte {digits : List Char} {n : Nat} (h : hexValue? digits = some n) (b : UInt8) :
    hexValue? (digits ++ hexOfByte b) = some (256 * n + b.toNat) := by
  have hb := b.toNat_lt
  have hhigh := hexDigitValue?_hexDigit (d := b.toNat / 16) (by omega)
  have hlow := hexDigitValue?_hexDigit (d := b.toNat % 16) (by omega)
  have hsplit : digits ++ hexOfByte b = digits ++ [hexDigit (b.toNat / 16)] ++ [hexDigit (b.toNat % 16)] := by
    rw [List.append_assoc]
    rfl
  rw [hsplit, hexValue?_concat_eq_some]
  refine ⟨_, hexValue?_concat_eq_some.mpr ⟨n, h, _, hhigh, rfl⟩, _, hlow, ?_⟩
  omega

/-- **The digits of bytes have the value of the bytes.** -/
theorem hexValue?_hexOfBytes (data : Bytes) : hexValue? (hexOfBytes data) = some (ofBigEndian data) := by
  induction data using List.reverseRecOn with
  | nil => rfl
  | append_singleton data b ih =>
    rw [hexOfBytes, List.flatMap_append, List.flatMap_singleton, ofBigEndian_concat]
    exact hexValue?_append_hexOfByte ih b

theorem length_hexOfBytes (data : Bytes) : (hexOfBytes data).length = 2 * data.length := by
  induction data with
  | nil => rfl
  | cons b data ih =>
    rw [hexOfBytes, List.flatMap_cons, List.length_append, ← hexOfBytes, ih, List.length_cons]
    show 2 + 2 * data.length = 2 * (data.length + 1)
    omega

theorem hexValue?_lt {digits : List Char} {n : Nat} (h : hexValue? digits = some n) : n < 16 ^ digits.length := by
  induction digits using List.reverseRecOn generalizing n with
  | nil =>
    cases h
    exact Nat.one_pos
  | append_singleton digits c ih =>
    obtain ⟨m, hm, d, hd, rfl⟩ := hexValue?_concat_eq_some.mp h
    have hm := ih hm
    have hd := hexDigitValue?_lt hd
    rw [List.length_append, List.length_singleton, Nat.pow_succ]
    omega

/-- Only digits have a value. -/
theorem isSome_of_mem_of_hexValue? {digits : List Char} {n : Nat} {c : Char} (h : hexValue? digits = some n)
    (hc : c ∈ digits) : (hexDigitValue? c).isSome = true := by
  induction digits using List.reverseRecOn generalizing n with
  | nil => cases hc
  | append_singleton digits last ih =>
    obtain ⟨m, hm, d, hd, -⟩ := hexValue?_concat_eq_some.mp h
    rcases List.mem_append.mp hc with hc | hc
    · exact ih hm hc
    · rw [List.mem_singleton.mp hc, hd]
      rfl

/-! ## The texts of a number -/

/-- The digits have this value. If it can be held, they are not more than can be read. -/
structure IsDigits (digits : List Char) (n : Nat) : Prop where
  value_eq : hexValue? digits = some n
  length_le : bitLength n ≤ capacityBits → digits.length ≤ 2 * capacityBytes

/-- The text of a number: a minus if it carries one, and digits of its magnitude. -/
def IsNumeral (text : List Char) (a : Number) : Prop :=
  ∃ digits, IsDigits digits a.magnitude ∧ text = (if a.sign = .minus then ['-'] else []) ++ digits

/-- The number with the sign that is read: a minus or, for want of one, a plus. -/
def Number.respelled (a : Number) : Number := if a.sign = .minus then negative a.magnitude else positive a.magnitude

/-- The outcome of reading a number back from one of its texts. -/
def reread (a : Number) : Outcome Number := if Fits a then .ok a.respelled else fault .malformedNumeral

theorem reread_eq_ok_iff {a b : Number} : reread a = .ok b ↔ Fits a ∧ b = a.respelled := by
  unfold reread
  by_cases h : Fits a
  · rw [if_pos h, Except.ok.injEq]
    exact ⟨fun hb => ⟨h, hb.symm⟩, fun hb => hb.2.symm⟩
  · rw [if_neg h]
    exact iff_of_false (fun hb => nomatch hb) fun hb => h hb.1

theorem isDigits_hexOfBytes (n : Nat) : IsDigits (hexOfBytes (bigEndian n)) n where
  value_eq := by rw [hexValue?_hexOfBytes, ofBigEndian_bigEndian]
  length_le := fun h => by
    rw [length_hexOfBytes, length_bigEndian]
    exact Nat.mul_le_mul_left 2 (bytesForBits_le_capacityBytes_iff.mpr h)

/-- **What is written is a numeral.** -/
theorem isNumeral_signedHex (a : Number) : IsNumeral (signedHex a) a := ⟨_, isDigits_hexOfBytes _, rfl⟩

namespace IsDigits

variable {digits : List Char} {n : Nat}

/-- Too many digits are those of a magnitude that cannot be held. -/
theorem two_mul_capacityBytes_lt (h : IsDigits digits n) (hn : ¬ bitLength n ≤ capacityBits) :
    2 * capacityBytes < digits.length := by
  by_contra hshort
  have hbits : 4 * digits.length ≤ capacityBits := by
    unfold capacityBytes capacityBits at *
    omega
  have hvalue : n < 2 ^ (4 * digits.length) := by
    rw [Nat.pow_mul]
    exact hexValue?_lt h.value_eq
  exact hn (Nat.le_trans (bitLength_le_iff.mpr hvalue) hbits)

theorem magnitudeOfHex_eq (h : IsDigits digits n) :
    magnitudeOfHex digits = if bitLength n ≤ capacityBits then .ok n else fault .malformedNumeral := by
  unfold magnitudeOfHex
  by_cases hn : bitLength n ≤ capacityBits
  · rw [if_pos hn, if_neg (Nat.not_lt.mpr (h.length_le hn)), h.value_eq]
  · rw [if_neg hn, if_pos (h.two_mul_capacityBytes_lt hn)]

/-- Digits do not start with a minus. -/
theorem numberOfHex_eq (h : IsDigits digits n) : numberOfHex digits = (magnitudeOfHex digits).map .positive := by
  unfold numberOfHex
  split
  · next tail =>
    have hminus := isSome_of_mem_of_hexValue? h.value_eq List.mem_cons_self
    cases hminus
  · rfl

end IsDigits

/-- **The outcome of reading a numeral.** -/
theorem IsNumeral.numberOfHex_eq {text : List Char} {a : Number} (h : IsNumeral text a) :
    numberOfHex text = reread a := by
  obtain ⟨digits, hdigits, rfl⟩ := h
  have hmap : ∀ respell : Nat → Number, (magnitudeOfHex digits).map respell =
      if Fits a then .ok (respell a.magnitude) else fault .malformedNumeral := by
    intro respell
    rw [hdigits.magnitudeOfHex_eq]
    exact apply_ite (Except.map respell) (Fits a) _ _
  by_cases hminus : a.sign = .minus
  · rw [if_pos hminus, reread, Number.respelled, if_pos hminus, ← hmap]
    rfl
  · rw [if_neg hminus, reread, Number.respelled, if_neg hminus, ← hmap, List.nil_append, hdigits.numberOfHex_eq]

end Paillier
