import Paillier.Proofs.Format.Reading

/-!
# Numbers in the postcard format

A number is written as a sign, a length and so many bytes of its magnitude, which may start with zeros. All three are
read as they stand; so, unlike a numeral, the bytes give back the sign that was written, even if it is none.

## Main statements

* `scanVarint_append_eq_ok` — a length is read as what was written, if it is read at all.
* `IsNumberBytes.scanSigned_append_eq_ok_iff` — the outcome of reading a number.
-/

namespace Paillier

attribute [local instance] natPow

variable {data rest : Bytes} {a : Number} {n : Nat}

/-- **A length is read as what was written, if it is read at all.** Whether it is depends on the number of bytes that
are left for it. -/
theorem scanVarint_append_eq_ok {left m : Nat} {remaining : Bytes}
    (h : scanVarint left (varint n ++ rest) = .ok (m, remaining)) : m = n ∧ remaining = rest := by
  induction n using varint.induct generalizing left m remaining with
  | case1 n hn =>
    rw [varint, if_pos hn, List.singleton_append] at h
    cases left with
    | zero => cases h
    | succ left =>
      rw [scanVarint, UInt8.toNat_ofNat', Nat.mod_eq_of_lt (by omega), if_pos hn] at h
      split at h
      · cases h
      · cases h
        exact ⟨rfl, rfl⟩
  | case2 n hn ih =>
    rw [varint, if_neg hn, List.cons_append] at h
    cases left with
    | zero => cases h
    | succ left =>
      rw [scanVarint, UInt8.toNat_ofNat', Nat.mod_eq_of_lt (by omega), if_neg (by omega)] at h
      rw [bind_eq_ok] at h
      obtain ⟨⟨high, tail⟩, hhigh, h⟩ := h
      obtain ⟨rfl, rfl⟩ := ih hhigh
      cases h
      exact ⟨by omega, rfl⟩

/-! ## Magnitudes -/

/-- The bytes have this value. If it can be held, they are not more than can be read. -/
structure IsMagnitude (data : Bytes) (n : Nat) : Prop where
  value_eq : ofBigEndian data = n
  length_le : bitLength n ≤ capacityBits → data.length ≤ capacityBytes

theorem isMagnitude_bigEndian (n : Nat) : IsMagnitude (bigEndian n) n where
  value_eq := ofBigEndian_bigEndian n
  length_le := fun h => by
    rw [length_bigEndian]
    exact bytesForBits_le_capacityBytes_iff.mpr h

namespace IsMagnitude

theorem length_le_iff (h : IsMagnitude data n) : data.length ≤ capacityBytes ↔ bitLength n ≤ capacityBits := by
  refine ⟨fun hlength => ?_, h.length_le⟩
  have hbytes : byteLength n ≤ data.length := by
    rw [← h.value_eq]
    exact byteLength_ofBigEndian_le data
  exact bytesForBits_le_capacityBytes_iff.mp (Nat.le_trans hbytes hlength)

/-- **The magnitude is taken whole, if it can be held.** -/
theorem scanMagnitude_append_eq_ok_iff (h : IsMagnitude data n) {m : Nat} {remaining : Bytes} :
    scanMagnitude (varint data.length ++ data ++ rest) = .ok (m, remaining) ↔
      bitLength n ≤ capacityBits ∧ m = n ∧ remaining = rest := by
  rw [← h.length_le_iff, List.append_assoc]
  have hlong : ¬ (data ++ rest).length < data.length := by
    rw [List.length_append]
    omega
  constructor
  · intro hscan
    obtain ⟨⟨length, tail⟩, hlength, hscan⟩ := bind_eq_ok.mp hscan
    obtain ⟨rfl, rfl⟩ := scanVarint_append_eq_ok hlength
    dsimp only at hscan
    rw [if_neg hlong, List.take_left, List.drop_left] at hscan
    obtain ⟨value, hvalue, hscan⟩ := bind_eq_ok.mp hscan
    obtain ⟨hshort, rfl⟩ := numberOfBytes_eq_ok_iff.mp (readout_eq_ok.mp hvalue)
    cases hscan
    exact ⟨hshort, h.value_eq, rfl⟩
  · rintro ⟨hshort, rfl, rfl⟩
    have hlength :
        scanVarint varintBytes (varint data.length ++ (data ++ remaining)) = .ok (data.length, data ++ remaining) :=
      scanVarint_varint _ _ 8 (Nat.lt_of_le_of_lt hshort (by decide))
    rw [scanMagnitude, hlength, ok_bind]
    dsimp only
    rw [if_neg hlong, List.take_left, List.drop_left, numberOfBytes_eq_ok hshort, h.value_eq]
    rfl

end IsMagnitude

/-! ## Numbers -/

theorem Sign.ofByte?_toByte (sign : Sign) : Sign.ofByte? sign.toByte = some sign := by
  cases sign <;> rfl

/-- The sign of the number, and bytes of its magnitude behind their length. -/
def IsNumberBytes (data : Bytes) (a : Number) : Prop :=
  ∃ magnitude, IsMagnitude magnitude a.magnitude ∧ data = a.sign.toByte :: varint magnitude.length ++ magnitude

/-- **What is written for a number are bytes of it.** -/
theorem isNumberBytes_postcardOfNumber (a : Number) : IsNumberBytes (postcardOfNumber a) a :=
  ⟨_, isMagnitude_bigEndian _, rfl⟩

/-- **A number is read as it was written, if it can be held**, and what follows is left. -/
theorem IsNumberBytes.scanSigned_append_eq_ok_iff (h : IsNumberBytes data a) {x : Number} {remaining : Bytes} :
    scanSigned (data ++ rest) = .ok (x, remaining) ↔ Fits a ∧ x = a ∧ remaining = rest := by
  obtain ⟨magnitude, hmagnitude, rfl⟩ := h
  rw [List.cons_append, List.cons_append, scanSigned, Sign.ofByte?_toByte]
  dsimp only
  rw [map_eq_ok]
  constructor
  · rintro ⟨⟨m, tail⟩, hscan, heq⟩
    obtain ⟨hfits, rfl, rfl⟩ := hmagnitude.scanMagnitude_append_eq_ok_iff.mp hscan
    cases heq
    exact ⟨hfits, rfl, rfl⟩
  · rintro ⟨hfits, rfl, rfl⟩
    exact ⟨(x.magnitude, remaining), hmagnitude.scanMagnitude_append_eq_ok_iff.mpr ⟨hfits, rfl, rfl⟩, rfl⟩

theorem IsNumberBytes.scanSigned_eq_ok_iff (h : IsNumberBytes data a) {x : Number} {remaining : Bytes} :
    scanSigned data = .ok (x, remaining) ↔ Fits a ∧ x = a ∧ remaining = [] := by
  rw [← h.scanSigned_append_eq_ok_iff, List.append_nil]

end Paillier
