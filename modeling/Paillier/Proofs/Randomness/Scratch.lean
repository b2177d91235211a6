import Mathlib.Tactic.Ring
import Paillier.Proofs.Randomness.Prime

/-!
# Editing the bytes of a draw

A draw is made into a number of the right form in place: the bits above its length are cleared in the first byte, and for
a prime two bits are set and the three last ones overwritten, each in the byte that holds it. Which byte that is depends
on the length; the two top bits are in different bytes if there is one bit more than the bytes behind the first one have.

What comes of it is computed from the value of the bytes in one step. Here both are shown to be the same, so no edit
touches a bit of another one, and none falls outside the bytes.

## Main statements

* `ofBigEndian_maskTopByte` — clearing the bits above the length leaves the remainder by a power of two.
* `ofBigEndian_setBit`, `ofBigEndian_overwriteLowBits` — what the other two edits do to the value.
* `ofBigEndian_candidateBytes` — the edited bytes are those of the candidate.
-/

namespace Paillier

/-! ## Edits -/

/-- The bits of the first byte that belong to a number of `bits` bits. -/
def topByteMask (bits : Nat) : UInt8 :=
  if bits % 8 = 0 then 0xff else (1 <<< UInt8.ofNat (bits % 8)) - 1

/-- Clears the bits above the length. -/
def maskTopByte (bits : Nat) (buffer : Bytes) : Bytes := buffer.modifyHead (· &&& topByteMask bits)

/-- Sets a bit; bits are counted from the end of the last byte. -/
def setBit (bit : Nat) (buffer : Bytes) : Bytes :=
  buffer.modify (buffer.length - 1 - bit / 8) (· ||| 1 <<< UInt8.ofNat (bit % 8))

/-- Overwrites the three last bits. -/
def overwriteLowBits (residue : Nat) (buffer : Bytes) : Bytes :=
  buffer.modify (buffer.length - 1) (· &&& 0xf8 ||| UInt8.ofNat residue)

/-- The bytes of a draw as they are when they are tried as a prime. -/
def candidateBytes (bits residue : Nat) (buffer : Bytes) : Bytes :=
  overwriteLowBits residue (setBit (bits - 2) (setBit (bits - 1) (maskTopByte bits buffer)))

/-! ## One byte -/

/-- The byte that holds a bit is one of the buffer. -/
theorem div_lt_length {bits bit : Nat} {buffer : Bytes} (hlen : buffer.length = bytesForBits bits) (h : bit < bits) :
    bit / 8 < buffer.length := by
  rw [hlen, bytesForBits]
  omega

/-- A byte that has `place` bytes behind it, and how it is changed. -/
theorem exists_eq_modify {buffer : Bytes} {place : Nat} (h : place < buffer.length) :
    ∃ front b back, buffer = front ++ b :: back ∧ back.length = place ∧
      ∀ f, buffer.modify (buffer.length - 1 - place) f = front ++ f b :: back := by
  have hindex : buffer.length - 1 - place < buffer.length := by omega
  have hdrop := List.drop_eq_getElem_cons hindex
  refine ⟨buffer.take (buffer.length - 1 - place), buffer[buffer.length - 1 - place],
    buffer.drop (buffer.length - 1 - place + 1), ?_, ?_, fun f => ?_⟩
  · rw [← hdrop, List.take_append_drop]
  · rw [List.length_drop]
    omega
  · rw [List.modify_eq_take_drop, hdrop, List.modifyHead_cons]

/-- What stands in front of the byte, the byte, and what stands behind it. -/
theorem ofBigEndian_append_cons (front : Bytes) (b : UInt8) (back : Bytes) :
    ofBigEndian (front ++ b :: back) =
      (ofBigEndian front * 2 ^ 8 + b.toNat) * 2 ^ (8 * back.length) + ofBigEndian back := by
  rw [ofBigEndian_append, ofBigEndian_cons, List.length_cons, two_pow_eight_mul]
  ring

/-! ## Bits of a sum -/

section

variable {x y z k : Nat}

/-- Bits above `k` do not meet what is below `2 ^ k`. -/
theorem add_or_mul_two_pow (hy : y < 2 ^ k) : (x * 2 ^ k + y) ||| z * 2 ^ k = (x ||| z) * 2 ^ k + y := by
  have hdisjoint : ∀ w, w * 2 ^ k + y = w <<< k ||| y := by
    intro w
    rw [Nat.mul_comm, Nat.two_pow_add_eq_or_of_lt hy, Nat.mul_comm, Nat.shiftLeft_eq]
  rw [hdisjoint, hdisjoint, ← Nat.shiftLeft_eq z, Nat.shiftLeft_or_distrib, Nat.or_assoc, Nat.or_assoc,
    Nat.or_comm y]

/-- And bits below `k` do not meet what is above. -/
theorem mul_two_pow_add_or (hy : y < 2 ^ k) (hz : z < 2 ^ k) : (x * 2 ^ k + y) ||| z = x * 2 ^ k + (y ||| z) := by
  have hor : y ||| z < 2 ^ k := Nat.or_lt_two_pow hy hz
  rw [Nat.mul_comm, Nat.two_pow_add_eq_or_of_lt hy, Nat.two_pow_add_eq_or_of_lt hor, Nat.or_assoc]

end

/-! ## What an edit does to the value -/

section

variable {bits residue bit : Nat} {buffer : Bytes}

/-- The first byte of a number of `bits` bits, with `k` bytes behind it, keeps the bits that the others do not hold. -/
theorem toNat_and_topByteMask {k : Nat} (hk : k + 1 = bytesForBits bits) (b : UInt8) :
    (b &&& topByteMask bits).toNat = b.toNat % 2 ^ (bits - 8 * k) := by
  unfold bytesForBits at hk
  have hmask : (topByteMask bits).toNat = 2 ^ (bits - 8 * k) - 1 := by
    by_cases hfull : bits % 8 = 0
    · rw [topByteMask, if_pos hfull, show bits - 8 * k = 8 by omega]
      rfl
    · have hbelow : ∀ s < 8, ((1 <<< UInt8.ofNat s) - 1 : UInt8).toNat = 2 ^ s - 1 := by decide
      rw [topByteMask, if_neg hfull, hbelow _ (Nat.mod_lt _ (by decide)), show bits - 8 * k = bits % 8 by omega]
  rw [UInt8.toNat_and, hmask, Nat.and_two_pow_sub_one_eq_mod]

/-- **Clearing the bits above the length leaves the remainder.** -/
theorem ofBigEndian_maskTopByte (hbits : 0 < bits) (hlen : buffer.length = bytesForBits bits) :
    ofBigEndian (maskTopByte bits buffer) = ofBigEndian buffer % 2 ^ bits := by
  cases buffer with
  | nil => exact absurd hlen (Nat.ne_of_lt (bytesForBits_pos hbits))
  | cons b rest =>
    have hrest := ofBigEndian_lt rest
    have hsplit : 2 ^ bits = 256 ^ rest.length * 2 ^ (bits - 8 * rest.length) := by
      rw [← two_pow_eight_mul, ← Nat.pow_add]
      congr 1
      rw [List.length_cons, bytesForBits] at hlen
      omega
    -- the remainder is that of the bytes behind the first one, which stay, and of the first one
    rw [maskTopByte, List.modifyHead_cons, ofBigEndian_cons, ofBigEndian_cons, toNat_and_topByteMask hlen, hsplit,
      Nat.mod_mul, Nat.mul_comm b.toNat, Nat.mul_add_mod, Nat.mod_eq_of_lt hrest, Nat.mul_add_div (Nat.zero_lt_of_lt hrest),
      Nat.div_eq_of_lt hrest, Nat.add_zero, Nat.add_comm, Nat.mul_comm]

/-- **Setting a bit of a byte sets it in the value.** -/
theorem ofBigEndian_setBit (h : bit / 8 < buffer.length) :
    ofBigEndian (setBit bit buffer) = ofBigEndian buffer ||| 2 ^ bit := by
  obtain ⟨front, b, back, rfl, hback, hmodify⟩ := exists_eq_modify h
  have hbyte : (b ||| 1 <<< UInt8.ofNat (bit % 8)).toNat = b.toNat ||| 2 ^ (bit % 8) := by
    have hshift : ∀ s < 8, (1 <<< UInt8.ofNat s : UInt8).toNat = 2 ^ s := by decide
    rw [UInt8.toNat_or, hshift _ (Nat.mod_lt _ (by decide))]
  have hsmall : 2 ^ (bit % 8) < 2 ^ 8 := Nat.pow_lt_pow_right (by decide) (Nat.mod_lt _ (by decide))
  have hplace : 2 ^ bit = 2 ^ (bit % 8) * 2 ^ (8 * back.length) := by
    rw [← Nat.pow_add, hback, Nat.mod_add_div]
  have hrest : ofBigEndian back < 2 ^ (8 * back.length) := by
    rw [two_pow_eight_mul]
    exact ofBigEndian_lt back
  rw [setBit, hmodify, ofBigEndian_append_cons, ofBigEndian_append_cons, hplace, hbyte, add_or_mul_two_pow hrest,
    mul_two_pow_add_or b.toNat_lt hsmall]

/-- **Overwriting the three last bits changes the remainder by 8.** -/
theorem ofBigEndian_overwriteLowBits (h : 0 < buffer.length) (hresidue : residue < 8) :
    ofBigEndian (overwriteLowBits residue buffer) = ofBigEndian buffer / 8 * 8 + residue := by
  obtain ⟨front, b, back, rfl, hback, hmodify⟩ := exists_eq_modify h
  obtain rfl := List.length_eq_zero_iff.mp hback
  have hbyte : (b &&& 0xf8 ||| UInt8.ofNat residue).toNat = b.toNat / 8 * 8 + residue := by
    have hclear : ∀ x < 256, x &&& 0xf8 = 2 ^ 3 * (x / 8) := by decide +kernel
    have hsmall : (UInt8.ofNat residue).toNat = residue := by
      rw [UInt8.toNat_ofNat', Nat.mod_eq_of_lt (by omega)]
    rw [UInt8.toNat_or, UInt8.toNat_and, UInt8.toNat_ofNat, Nat.mod_eq_of_lt (by decide), hclear _ b.toNat_lt, hsmall,
      ← Nat.two_pow_add_eq_or_of_lt hresidue, Nat.mul_comm]
  have hmodify := hmodify (· &&& 0xf8 ||| UInt8.ofNat residue)
  rw [Nat.sub_zero] at hmodify
  rw [overwriteLowBits, hmodify, ofBigEndian_concat, ofBigEndian_concat, hbyte]
  omega

theorem length_setBit (bit : Nat) (buffer : Bytes) : (setBit bit buffer).length = buffer.length :=
  List.length_modify _ _ _

theorem length_maskTopByte (bits : Nat) (buffer : Bytes) : (maskTopByte bits buffer).length = buffer.length :=
  List.length_modifyHead

/-- The two top bits of a number below `2 ^ (k + 2)` are set above the others. -/
theorem or_two_pow_or_two_pow {w k : Nat} (h : w < 2 ^ (k + 2)) :
    w ||| 2 ^ (k + 1) ||| 2 ^ k = 3 * 2 ^ k + w % 2 ^ k := by
  have hlow : w % 2 ^ k < 2 ^ k := Nat.mod_lt _ (Nat.two_pow_pos k)
  have htop : w / 2 ^ k < 4 := by
    rw [Nat.div_lt_iff_lt_mul (Nat.two_pow_pos k)]
    exact Nat.lt_of_lt_of_le h (by rw [Nat.pow_add, Nat.mul_comm])
  have hset : ∀ x < 4, x ||| 2 ||| 1 = 3 := by decide
  calc w ||| 2 ^ (k + 1) ||| 2 ^ k
      = (w / 2 ^ k * 2 ^ k + w % 2 ^ k) ||| 2 * 2 ^ k ||| 1 * 2 ^ k := by
        rw [Nat.div_add_mod', Nat.pow_succ, Nat.mul_comm 2, Nat.one_mul]
    _ = (w / 2 ^ k ||| 2 ||| 1) * 2 ^ k + w % 2 ^ k := by
        rw [add_or_mul_two_pow hlow, add_or_mul_two_pow hlow]
    _ = 3 * 2 ^ k + w % 2 ^ k := by rw [hset _ htop]

/-- **The edited bytes are those of the candidate.** -/
theorem ofBigEndian_candidateBytes (hbits : 5 ≤ bits) (hresidue : residue < 8)
    (hlen : buffer.length = bytesForBits bits) :
    ofBigEndian (candidateBytes bits residue buffer) = primeCandidate bits residue (ofBigEndian buffer) := by
  obtain ⟨k, rfl⟩ := Nat.exists_eq_add_of_le' hbits
  have hmasked := (length_maskTopByte (k + 5) buffer).trans hlen
  have hfirst := (length_setBit (k + 5 - 1) _).trans hmasked
  have hsecond := (length_setBit (k + 5 - 2) _).trans hfirst
  have hbelow : ofBigEndian buffer % 2 ^ (k + 5) < 2 ^ (k + 3 + 2) := Nat.mod_lt _ (Nat.two_pow_pos _)
  have htop : 2 ^ (k + 3) = 8 * 2 ^ k := by ring
  have hlow : ofBigEndian buffer % 2 ^ (k + 5) % 2 ^ (k + 3) = ofBigEndian buffer % 2 ^ (k + 3) :=
    Nat.mod_mod_of_dvd _ (Nat.pow_dvd_pow 2 (by omega))
  rw [candidateBytes, ofBigEndian_overwriteLowBits (by rw [hsecond]; exact bytesForBits_pos (by omega)) hresidue,
    ofBigEndian_setBit (div_lt_length hfirst (by omega)), ofBigEndian_setBit (div_lt_length hmasked (by omega)),
    ofBigEndian_maskTopByte (by omega) hlen, show k + 5 - 1 = k + 3 + 1 by omega, show k + 5 - 2 = k + 3 by omega,
    or_two_pow_or_two_pow hbelow, hlow, primeCandidate, show k + 5 - 2 = k + 3 by omega, htop]
  omega

end

end Paillier
