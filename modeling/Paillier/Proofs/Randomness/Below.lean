import Paillier.Proofs.Randomness.Count
import Paillier.Proofs.Randomness.Scratch

/-!
# Random numbers are uniform

A number below `n` is the value of the first block that is below `n` once the bits above the length of `n` have been
cleared. These bits are free, so every value comes from equally many blocks, and the search gives all of them equally
often. It does not reject much, as `n` is at least half of what its length can hold.

## Main statements

* `Sampler.FindsFirst.uniform_valueOfBlock` — a search for values of blocks gives all of them equally often.
* `randomBelow_uniform` — what a random number is, how much it takes, and that it is uniform.
-/

namespace Paillier

attribute [local instance] natPow

open Number (positive)

/-! ## Values of blocks -/

section

variable {n v : Nat} {good : Nat → Prop} [DecidablePred good] {block : Bytes}

/-- The value of a block without the bits above the length of `n`, if it is good. -/
def valueOfBlock (n : Nat) (good : Nat → Prop) [DecidablePred good] (block : Bytes) : Option Number :=
  let value := ofBigEndian (maskTopByte (bitLength n) block)
  if good value then some (positive value) else none

theorem positive_inj {m n : Nat} : positive m = positive n ↔ m = n :=
  ⟨fun h => congrArg Number.magnitude h, congrArg positive⟩

theorem valueOfBlock_eq_some_iff {a : Number} :
    valueOfBlock n good block = some a ↔
      good (ofBigEndian (maskTopByte (bitLength n) block)) ∧
        positive (ofBigEndian (maskTopByte (bitLength n) block)) = a := by
  rw [valueOfBlock]
  split
  · next h => rw [Option.some.injEq, and_iff_right h]
  · next h => simp [h]

theorem isSome_valueOfBlock :
    (valueOfBlock n good block).isSome ↔ good (ofBigEndian (maskTopByte (bitLength n) block)) := by
  rw [valueOfBlock]
  split <;> simp [*]

theorem bitLength_pos (hn : 0 < n) : 0 < bitLength n := lt_bitLength_iff.mpr hn

theorem lt_two_pow_bitLength (n : Nat) : n < 2 ^ bitLength n := bitLength_le_iff.mp (Nat.le_refl _)

theorem bitLength_le_eight_mul_byteLength (n : Nat) : bitLength n ≤ 8 * byteLength n := by
  unfold byteLength bytesForBits
  omega

/-- The blocks by what is left of their values. -/
theorem byteCount_maskTopByte (hn : 0 < n) (has : Nat → Prop) :
    byteCount (byteLength n) (fun block => has (ofBigEndian (maskTopByte (bitLength n) block))) =
      {x | x < 2 ^ bitLength n ∧ has x}.ncard * 2 ^ (8 * byteLength n - bitLength n) := by
  rw [← byteCount_mod (bitLength_le_eight_mul_byteLength n)]
  refine byteCount_congr fun block hlen => ?_
  rw [ofBigEndian_maskTopByte (bitLength_pos hn) hlen]

/-- **Every good value comes from the same number of blocks.** -/
theorem byteCount_valueOfBlock (hn : 0 < n) (hgood : ∀ v, good v → v < n) (hv : good v) :
    byteCount (byteLength n) (valueOfBlock n good · = some (positive v)) = 2 ^ (8 * byteLength n - bitLength n) := by
  have hsingle : {x | x < 2 ^ bitLength n ∧ good x ∧ x = v} = {v} := by
    ext x
    constructor
    · exact fun hx => hx.2.2
    · rintro rfl
      exact ⟨Nat.lt_trans (hgood _ hv) (lt_two_pow_bitLength n), hv, rfl⟩
  simp only [valueOfBlock_eq_some_iff, positive_inj]
  rw [byteCount_maskTopByte hn fun x => good x ∧ x = v, hsingle, Set.ncard_singleton, Nat.one_mul]

/-- So the blocks that are accepted can be told from the values. -/
theorem byteCount_isSome_valueOfBlock (hn : 0 < n) (hgood : ∀ v, good v → v < n) :
    byteCount (byteLength n) (fun block => (valueOfBlock n good block).isSome) =
      {v | good v}.ncard * 2 ^ (8 * byteLength n - bitLength n) := by
  have hlow : {x | x < 2 ^ bitLength n ∧ good x} = {v | good v} := by
    ext x
    exact ⟨fun hx => hx.2, fun hx => ⟨Nat.lt_trans (hgood x hx) (lt_two_pow_bitLength n), hx⟩⟩
  simp only [isSome_valueOfBlock]
  rw [byteCount_maskTopByte hn good, hlow]

/-- **A search for good values gives all of them equally often.** -/
theorem Sampler.FindsFirst.uniform_valueOfBlock {sampler : Sampler Number} {hit : Nat → List Event}
    {miss : Bytes → List Event}
    (h : ∀ source, sampler.FindsFirst (byteLength n) (valueOfBlock n good) hit miss source)
    (hn : 0 < n) (hgood : ∀ v, good v → v < n) : sampler.Uniform (byteLength n) (positive '' {v | good v}) := by
  refine FindsFirst.uniform h (bytesForBits_pos (bitLength_pos hn))
    (Nat.two_pow_pos (8 * byteLength n - bitLength n)) ?_ ?_
  · rintro _ ⟨v, hv, rfl⟩
    exact byteCount_valueOfBlock hn hgood hv
  · intro block a _ hblock
    obtain ⟨hvalue, rfl⟩ := valueOfBlock_eq_some_iff.mp hblock
    exact ⟨_, hvalue, rfl⟩

end

/-! ## Random numbers -/

section

variable {n : Nat} {source : Source}

theorem runOn_drawBelow_of_le (hfits : n < 2 ^ capacityBits) (hn : 0 < n)
    (henough : byteLength n ≤ source.entropy.length) :
    (drawBelow (positive n)).runOn source =
      match valueOfBlock n (· < n) (source.entropy.take (byteLength n)) with
      | some a => (.ok (some a), ⟨source.entropy.drop (byteLength n), source.events⟩)
      | none => (.ok none, ⟨source.entropy.drop (byteLength n), .valueOutOfRange :: source.events⟩) := by
  have hlen : (source.entropy.take (byteLength n)).length = byteLength n := List.length_take_of_le henough
  have hshort : (source.entropy.take (byteLength n)).length ≤ capacityBytes := by
    rw [hlen]
    exact bytesForBits_le_capacityBytes_iff.mpr (bitLength_le_iff.mpr hfits)
  have hvalue := ofBigEndian_maskTopByte (bitLength_pos hn) hlen
  have henough : ¬ source.entropy.length < bytesForBits (bitLength n) := Nat.not_lt.mpr henough
  rw [drawBelow, Sampler.runOn_bind, Sampler.runOn_draw, Number.magnitude_positive, if_neg henough]
  dsimp only
  rw [Sampler.runOn_bind, Sampler.runOn_outcome, ← byteLength, numberOfBytes_eq_ok hshort]
  dsimp only
  rw [Number.magnitude_positive, ← hvalue, valueOfBlock]
  simp only [Number.positive_lt_positive]
  split <;> rfl

theorem triesBlocks_drawBelow (hfits : n < 2 ^ capacityBits) (hn : 0 < n) :
    Sampler.TriesBlocks (fun _ => drawBelow (positive n)) (byteLength n) (valueOfBlock n (· < n))
      (fun _ => []) (fun _ => [.valueOutOfRange]) where
  starves _ source hshort := by
    have hshort : source.entropy.length < bytesForBits (bitLength (positive n).magnitude) := hshort
    rw [drawBelow, Sampler.runOn_bind, Sampler.runOn_draw, if_pos hshort]
    rfl
  accepts _ source a henough ha := by
    rw [runOn_drawBelow_of_le hfits hn henough, ha]
    rfl
  rejects _ source henough hnone := by
    rw [runOn_drawBelow_of_le hfits hn henough, hnone]
    rfl

/-- A random number is found by the search alone, as scratch space can be reserved. -/
theorem randomBelow_eq_untilSome (hfits : n < 2 ^ capacityBits) (hn : 0 < n) :
    randomBelow (positive n) =
      Sampler.untilSome (fun _ => drawBelow (positive n)) fun _ => takes_drawBelow (bitLength_pos hn) := by
  have hscratch : reserveScratch (bitLength (positive n).magnitude) = .ok () :=
    reserveScratch_eq_ok (bitLength_le_iff.mpr hfits)
  rw [randomBelow, dif_pos ⟨bitLength_pos hn, rfl⟩, hscratch]
  rfl

theorem findsFirst_randomBelow (hfits : n < 2 ^ capacityBits) (hn : 0 < n) (source : Source) :
    (randomBelow (positive n)).FindsFirst (byteLength n) (valueOfBlock n (· < n)) (fun _ => [])
      (fun _ => [.valueOutOfRange]) source := by
  rw [randomBelow_eq_untilSome hfits hn]
  exact (triesBlocks_drawBelow hfits hn).findsFirst _ (bytesForBits_pos (bitLength_pos hn)) source

/-- Below nothing there is nothing to draw. -/
theorem runOn_randomBelow_of_nonpos {a : Number} {z : Int} (ha : a.Denotes z) (hz : z ≤ 0) (source : Source) :
    (randomBelow a).runOn source = (refuse .invalidParameter, source) := by
  have hnot : ¬ (0 < bitLength a.magnitude ∧ 0 ≤ a) := by
    rintro ⟨hbits, hnonneg⟩
    have hpos : 0 < a.magnitude := lt_bitLength_iff.mp hbits
    rw [ha.nonneg_iff] at hnonneg
    rw [ha.magnitude_eq] at hpos
    omega
  rw [randomBelow, dif_neg hnot, Sampler.runOn_refuse]

/-- **At least half of the blocks are accepted**, as the first bit of `n` is set. -/
theorem two_pow_le_two_mul_byteCount (hn : 0 < n) :
    2 ^ (8 * byteLength n) ≤ 2 * byteCount (byteLength n) (fun block => (valueOfBlock n (· < n) block).isSome) := by
  have hbits := bitLength_pos hn
  have hfirst : 2 ^ (bitLength n - 1) ≤ n := lt_bitLength_iff.mp (by omega)
  calc 2 ^ (8 * byteLength n)
      = 2 ^ bitLength n * 2 ^ (8 * byteLength n - bitLength n) := by
        rw [← Nat.pow_add, Nat.add_sub_of_le (bitLength_le_eight_mul_byteLength n)]
    _ = 2 * 2 ^ (bitLength n - 1) * 2 ^ (8 * byteLength n - bitLength n) := by
        rw [← Nat.pow_succ', Nat.succ_eq_add_one, Nat.sub_add_cancel hbits]
    _ ≤ 2 * n * 2 ^ (8 * byteLength n - bitLength n) :=
        Nat.mul_le_mul_right _ (Nat.mul_le_mul_left 2 hfirst)
    _ = 2 * byteCount (byteLength n) (fun block => (valueOfBlock n (· < n) block).isSome) := by
        rw [byteCount_isSome_valueOfBlock hn fun _ hv => hv, ncard_lt, Nat.mul_assoc]

/--
**Random numbers are exact and uniform**, for every integer that is written as a number and every source.

Below an integer that is not positive nothing can be drawn, and nothing is. Below a positive one the blocks have as many
bytes as the integer, and the value of the first one that is below it, without the bits above its length, is found.
-/
theorem randomBelow_uniform {a : Number} {z : Int} (ha : a.Denotes z) (hfits : Fits a) :
    (∀ source, ((randomBelow a).runOn source).1 = refuse .invalidParameter ↔ z ≤ 0) ∧
    (z ≤ 0 → ∀ source, (randomBelow a).runOn source = (refuse .invalidParameter, source)) ∧
    ∀ n : Nat, z = n → 0 < n →
      (∀ source, (randomBelow a).FindsFirst (byteLength n) (valueOfBlock n (· < n)) (fun _ => [])
        (fun _ => [.valueOutOfRange]) source) ∧
      (randomBelow a).Uniform (byteLength n) (positive '' {v | v < n}) ∧
      (∀ t, byteCount (byteLength n * t) (fun _ => True) = 2 ^ (8 * (byteLength n * t))) ∧
      2 ^ (8 * byteLength n) ≤
        2 * byteCount (byteLength n) (fun block => (valueOfBlock n (· < n) block).isSome) := by
  have hfinds : ∀ n : Nat, z = n → 0 < n → ∀ source,
      (randomBelow a).FindsFirst (byteLength n) (valueOfBlock n (· < n)) (fun _ => []) (fun _ => [.valueOutOfRange])
        source := by
    rintro n rfl hn source
    have heq := ha.eq_positive hn
    rw [heq, fits_iff] at hfits
    rw [heq]
    exact findsFirst_randomBelow hfits hn source
  refine ⟨fun source => ⟨fun hrun => ?_, fun hz => ?_⟩, fun hz => runOn_randomBelow_of_nonpos ha hz,
    fun n hz hn => ⟨hfinds n hz hn, ?_, fun t => byteCount_true _, two_pow_le_two_mul_byteCount hn⟩⟩
  · by_contra hpos
    obtain ⟨n, rfl⟩ := Int.eq_ofNat_of_zero_le (Int.le_of_lt (Int.not_le.mp hpos))
    have hcause := (hfinds n rfl (by omega) source).failure_eq hrun
    cases hcause
  · rw [runOn_randomBelow_of_nonpos ha hz]
  · exact Sampler.FindsFirst.uniform_valueOfBlock (hfinds n hz hn) hn fun _ hv => hv

/--
Below `257` there are two bytes in a block, and seven of their bits are free. The first block is `257` without them, which
is rejected, and the second one `256`. Zero and `256` are given equally often.
-/
theorem randomBelow_uniform_twoBytes :
    (257 : Number).Denotes (257 : Nat) ∧ Fits 257 ∧
      (randomBelow 257).runOn ⟨[0x03, 0x01, 0xff, 0x00, 0x07], []⟩ =
        (.ok (positive 256), ⟨[0x07], [.valueOutOfRange]⟩) ∧
      ∀ t, (randomBelow 257).streamCount (2 * t) (positive 0) =
        (randomBelow 257).streamCount (2 * t) (positive 256) := by
  have hn : (257 : Number).Denotes (257 : Nat) := Number.denotes_ofNat 257
  have hfits : Fits 257 := by decide
  obtain ⟨-, -, hpositive⟩ := randomBelow_uniform hn hfits
  obtain ⟨hfinds, huniform, -, -⟩ := hpositive 257 rfl (by decide)
  have hfirst : FirstAccepted (byteLength 257) (valueOfBlock 257 (· < 257)) [0x03, 0x01, 0xff, 0x00, 0x07] 1
      (positive 256) := ⟨by decide, by decide, by decide⟩
  refine ⟨hn, hfits, ((hfinds _).eq_ok_iff _ _).mpr ⟨1, hfirst, rfl⟩, fun t => ?_⟩
  exact huniform.equal t _ ⟨0, by decide, rfl⟩ _ ⟨256, by decide, rfl⟩

end

end Paillier
