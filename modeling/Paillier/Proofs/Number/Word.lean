import Paillier.Proofs.Number.BigEndian
import Paillier.Proofs.Number.Denotation

/-!
# Words

The bytes of a magnitude are shifted into a word one after the other. A word has room for eight of them; of a longer
string the first ones would be shifted out again, which is why the number of bytes is looked at before. Without zeros in
front that is exactly the condition under which no set bit is lost.

## Main statements

* `foldl_shiftLeft` — the word that comes out is the value modulo `2 ^ 64`, for a string of any length.
* `wordOfMagnitude?_eq` — a magnitude is a word iff it is below `2 ^ 64`.
* `Number.Denotes.toWord?_eq` — whether a number is a word depends on the integer alone.
* `keepsBits_stripLeadingZeros_iff` — which byte strings are shifted in without losing a bit.
* `word_conversion_exact` — all of it together.
-/

namespace Paillier

attribute [local instance] natPow

/-- The shift multiplies by 256 and leaves the last byte free, so the next byte is added. -/
theorem shiftLeft_or_toUInt64 (n : Nat) (b : UInt8) :
    UInt64.ofNat n <<< 8 ||| b.toUInt64 = UInt64.ofNat (256 * n + b.toNat) := by
  have hb : b.toNat < 2 ^ 8 := b.toNat_lt
  have hshift : (UInt64.ofNat n <<< 8).toNat = 2 ^ 8 * (n % 2 ^ 56) := by
    rw [UInt64.toNat_shiftLeft, UInt64.toNat_ofNat', Nat.shiftLeft_eq]
    show n % 2 ^ 64 * 2 ^ 8 % 2 ^ 64 = 2 ^ 8 * (n % 2 ^ 56)
    omega
  rw [← UInt64.toNat_inj, UInt64.toNat_or, hshift, UInt8.toNat_toUInt64, ← Nat.two_pow_add_eq_or_of_lt hb,
    UInt64.toNat_ofNat']
  omega

/-- **What is shifted in is the value, as far as a word can hold it.** -/
theorem foldl_shiftLeft (data : Bytes) :
    data.foldl (fun (word : UInt64) b => (word <<< 8) ||| b.toUInt64) 0 = UInt64.ofNat (ofBigEndian data) :=
  List.foldl_hom UInt64.ofNat shiftLeft_or_toUInt64

/-- **A magnitude is a word iff it is below `2 ^ 64`.** -/
theorem wordOfMagnitude?_eq (n : Nat) :
    wordOfMagnitude? n = if n < 2 ^ (64 : Nat) then some (UInt64.ofNat n) else none := by
  have hlong : 8 < byteLength n ↔ ¬ n < 2 ^ (64 : Nat) := lt_byteLength_iff.trans Nat.not_lt.symm
  simp only [wordOfMagnitude?, stripLeadingZeros_eq, foldl_shiftLeft, ofBigEndian_bigEndian, length_bigEndian, hlong,
    ite_not]

namespace Number

theorem not_lt {a b : Number} : ¬ a < b ↔ b ≤ a := by
  show ¬ before a b = true ↔ before a b = false
  rw [Bool.not_eq_true]

/-- **A number is a word iff the integer is in `[0, 2 ^ 64)`.** -/
theorem Denotes.toWord?_eq {a : Number} {z : Int} (h : a.Denotes z) :
    a.toWord? = if 0 ≤ z ∧ z < (2 ^ (64 : Nat) : Nat) then some (UInt64.ofNat z.toNat) else none := by
  by_cases hz : 0 ≤ z
  · have hvalue : a.magnitude = z.toNat := by
      rw [h.magnitude_eq]
      omega
    have hword : z.toNat < 2 ^ (64 : Nat) ↔ 0 ≤ z ∧ z < (2 ^ (64 : Nat) : Nat) := by omega
    rw [toWord?, if_neg (not_lt.mpr (h.nonneg_iff.mpr hz)), wordOfMagnitude?_eq, hvalue]
    simp only [hword]
  · have hneg : a < 0 := Decidable.not_not.mp (mt not_lt.mp (mt h.nonneg_iff.mp hz))
    rw [toWord?, if_pos hneg, if_neg (fun hword => hz hword.1)]

/-- The same of numbers that are written for no integer: the order decides about the sign, and the magnitude counts. -/
theorem toWord?_eq_some_iff {a : Number} {v : UInt64} : a.toWord? = some v ↔ 0 ≤ a ∧ a.magnitude = v.toNat := by
  have hv := v.toNat_lt
  rw [toWord?, ← not_lt]
  by_cases hneg : a < 0
  · rw [if_pos hneg]
    exact iff_of_false (fun h => nomatch h) fun h => h.1 hneg
  · rw [if_neg hneg, wordOfMagnitude?_eq]
    by_cases hword : a.magnitude < 2 ^ (64 : Nat)
    · rw [if_pos hword, Option.some.injEq, ← UInt64.toNat_inj, UInt64.toNat_ofNat', Nat.mod_eq_of_lt hword]
      exact ⟨fun h => ⟨hneg, h⟩, fun h => h.2⟩
    · rw [if_neg hword]
      refine iff_of_false (fun h => nomatch h) ?_
      rintro ⟨-, heq⟩
      omega

theorem Denotes.toWord?_eq_some_iff {a : Number} {z : Int} {v : UInt64} (h : a.Denotes z) :
    a.toWord? = some v ↔ (0 ≤ z ∧ z < (2 ^ (64 : Nat) : Nat)) ∧ (v.toNat : Int) = z := by
  have hv : v.toNat < 2 ^ (64 : Nat) := v.toNat_lt
  rw [Number.toWord?_eq_some_iff, h.nonneg_iff, h.magnitude_eq]
  omega

theorem Denotes.toWord?_eq_none_iff {a : Number} {z : Int} (h : a.Denotes z) :
    a.toWord? = none ↔ ¬ (0 ≤ z ∧ z < (2 ^ (64 : Nat) : Nat)) := by
  rw [h.toWord?_eq]
  split
  · next hword => exact iff_of_false (fun hnone => nomatch hnone) fun hnot => hnot hword
  · next hnot => exact iff_of_true rfl hnot

end Number

/-! ## Bits -/

/-- The word into which the bytes are shifted one after the other. -/
def shiftedIn (data : Bytes) : UInt64 := data.foldl (fun word b => (word <<< 8) ||| b.toUInt64) 0

theorem toNat_shiftedIn (data : Bytes) : (shiftedIn data).toNat = ofBigEndian data % 2 ^ (64 : Nat) := by
  rw [shiftedIn, foldl_shiftLeft, UInt64.toNat_ofNat']

/-- Eight bytes are a word. -/
theorem toNat_shiftedIn_of_length_le {data : Bytes} (h : data.length ≤ 8) :
    (shiftedIn data).toNat = ofBigEndian data := by
  have hlt : ofBigEndian data < 256 ^ 8 :=
    Nat.lt_of_lt_of_le (ofBigEndian_lt data) (Nat.pow_le_pow_right (by decide) h)
  rw [toNat_shiftedIn]
  exact Nat.mod_eq_of_lt hlt

/-- A word that is shifted by a byte comes back iff there is no bit in its first byte. -/
theorem shiftLeft_shiftRight_eq_iff {word : UInt64} : (word <<< 8) >>> 8 = word ↔ word.toNat < 2 ^ (56 : Nat) := by
  have hshift : ((word <<< 8) >>> 8).toNat = word.toNat % 2 ^ (56 : Nat) := by
    rw [UInt64.toNat_shiftRight, UInt64.toNat_shiftLeft, Nat.shiftLeft_eq, Nat.shiftRight_eq_div_pow]
    show word.toNat * 2 ^ 8 % 2 ^ 64 / 2 ^ 8 = word.toNat % 2 ^ 56
    omega
  rw [← UInt64.toNat_inj, hshift]
  omega

/-- No set bit is lost on the way: wherever one more byte is shifted in, the word that is there could be shifted back. -/
def KeepsBits (data : Bytes) : Prop :=
  ∀ front b back, data = front ++ b :: back → (shiftedIn front <<< 8) >>> 8 = shiftedIn front

theorem keepsBits_of_length_le {data : Bytes} (h : data.length ≤ 8) : KeepsBits data := by
  rintro front b back rfl
  rw [List.length_append, List.length_cons] at h
  have hvalue : ofBigEndian front < 256 ^ 7 :=
    Nat.lt_of_lt_of_le (ofBigEndian_lt front) (Nat.pow_le_pow_right (by decide) (by omega))
  rwa [shiftLeft_shiftRight_eq_iff, toNat_shiftedIn_of_length_le (by omega)]

/-- **Without zeros in front, eight bytes are the most that keep their bits.** -/
theorem keepsBits_stripLeadingZeros_iff {data : Bytes} :
    KeepsBits (stripLeadingZeros data) ↔ (stripLeadingZeros data).length ≤ 8 := by
  refine ⟨fun hkeeps => Nat.le_of_not_lt fun hlong => ?_, keepsBits_of_length_le⟩
  obtain ⟨b, back, hback⟩ : ∃ b back, (stripLeadingZeros data).drop 8 = b :: back := by
    refine List.exists_cons_of_length_pos ?_
    rw [List.length_drop]
    omega
  have hsplit : stripLeadingZeros data = (stripLeadingZeros data).take 8 ++ b :: back := by
    rw [← hback, List.take_append_drop]
  have hfront : ((stripLeadingZeros data).take 8).length = 8 := by
    rw [List.length_take]
    omega
  have hroom := hkeeps _ b back hsplit
  rw [shiftLeft_shiftRight_eq_iff, toNat_shiftedIn_of_length_le (Nat.le_of_eq hfront)] at hroom
  -- eight bytes that come back are below `256 ^ 7`, and then the value has fewer bytes than are left
  have hshort : byteLength (ofBigEndian (stripLeadingZeros data)) ≤ 7 + (b :: back).length := by
    rw [byteLength_le_iff, hsplit, ofBigEndian_append, Nat.pow_add]
    have hrest := ofBigEndian_lt (b :: back)
    have hmul := Nat.mul_le_mul_right (256 ^ (b :: back).length) (Nat.succ_le_of_lt hroom)
    rw [Nat.succ_mul] at hmul
    exact Nat.lt_of_lt_of_le (Nat.add_lt_add_left hrest _) hmul
  rw [ofBigEndian_stripLeadingZeros, ← length_stripLeadingZeros, hsplit, List.length_append, hfront] at hshort
  omega

theorem wordOfMagnitude?_ofBigEndian (data : Bytes) :
    wordOfMagnitude? (ofBigEndian data) =
      if 8 < (stripLeadingZeros data).length then none else some (shiftedIn (stripLeadingZeros data)) := by
  have hstrip : stripLeadingZeros (bigEndian (ofBigEndian data)) = stripLeadingZeros data := by
    rw [stripLeadingZeros_eq, ofBigEndian_bigEndian, ← stripLeadingZeros_eq]
  rw [← hstrip]
  rfl

/--
**A number is turned into a word iff it is one, and then into its value.**

A number that is written for no integer is judged by its order and its magnitude. The last part is about the bytes of a
magnitude in any form: they are shifted in iff no set bit is lost by that, and then the word has their value.
-/
theorem word_conversion_exact :
    (∀ (a : Number) (z : Int), a.Denotes z →
      (∀ v : UInt64, a.toWord? = some v ↔ (0 ≤ z ∧ z < (2 ^ (64 : Nat) : Nat)) ∧ (v.toNat : Int) = z) ∧
      (a.toWord? = none ↔ ¬ (0 ≤ z ∧ z < (2 ^ (64 : Nat) : Nat)))) ∧
    (∀ (a : Number) (v : UInt64), a.toWord? = some v ↔ 0 ≤ a ∧ a.magnitude = v.toNat) ∧
    ∀ data : Bytes,
      (wordOfMagnitude? (ofBigEndian data) = some (shiftedIn (stripLeadingZeros data)) ↔
        KeepsBits (stripLeadingZeros data)) ∧
      (KeepsBits (stripLeadingZeros data) → (shiftedIn (stripLeadingZeros data)).toNat = ofBigEndian data) ∧
      (wordOfMagnitude? (ofBigEndian data) = none ↔ ¬ KeepsBits (stripLeadingZeros data)) := by
  refine ⟨fun a z ha => ⟨fun v => ha.toWord?_eq_some_iff, ha.toWord?_eq_none_iff⟩,
    fun a v => Number.toWord?_eq_some_iff, fun data => ?_⟩
  rw [wordOfMagnitude?_ofBigEndian, keepsBits_stripLeadingZeros_iff, ← Nat.not_lt]
  refine ⟨by simp, fun hshort => ?_, by simp⟩
  rw [toNat_shiftedIn_of_length_le (Nat.not_lt.mp hshort), ofBigEndian_stripLeadingZeros]

/-- The largest word and its neighbour, and the neighbour of zero. The bytes of the largest word keep their bits, also
behind zeros; one more byte is one too many. -/
theorem word_conversion_exact_largest :
    (Number.ofNat (2 ^ (64 : Nat) - 1)).Denotes (2 ^ (64 : Nat) - 1 : Nat) ∧
    (Number.ofNat (2 ^ (64 : Nat) - 1)).toWord? = some (UInt64.ofNat (2 ^ (64 : Nat) - 1)) ∧
    (Number.ofNat (2 ^ (64 : Nat))).toWord? = none ∧ (Number.ofInt (-1)).toWord? = none ∧
    (Number.ofNat 0).toWord? = some 0 ∧
    KeepsBits (stripLeadingZeros (0 :: List.replicate 8 255)) ∧
    (shiftedIn (stripLeadingZeros (0 :: List.replicate 8 255))).toNat = ofBigEndian (0 :: List.replicate 8 255) ∧
    ¬ KeepsBits (stripLeadingZeros (1 :: List.replicate 8 0)) := by
  obtain ⟨hvalue, -, hbytes⟩ := word_conversion_exact
  have hdenotes := Number.denotes_ofNat (2 ^ (64 : Nat) - 1)
  obtain ⟨hlargest, -⟩ := hvalue _ _ hdenotes
  obtain ⟨-, habove⟩ := hvalue _ _ (Number.denotes_ofNat (2 ^ (64 : Nat)))
  obtain ⟨-, hbelow⟩ := hvalue (.ofInt (-1)) (-1) (Or.inl rfl)
  obtain ⟨hzero, -⟩ := hvalue _ _ (Number.denotes_ofNat 0)
  obtain ⟨-, hexact, -⟩ := hbytes (0 :: List.replicate 8 255)
  obtain ⟨-, -, hlost⟩ := hbytes (1 :: List.replicate 8 0)
  have hkeeps : KeepsBits (stripLeadingZeros (0 :: List.replicate 8 255)) := keepsBits_of_length_le (by decide)
  exact ⟨hdenotes, (hlargest _).mpr (by decide), habove.mpr (by decide), hbelow.mpr (by decide),
    (hzero 0).mpr (by decide), hkeeps, hexact hkeeps, hlost.mp (by decide +kernel)⟩

end Paillier
