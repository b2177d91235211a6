import Mathlib.Data.Set.Card
import Mathlib.Tactic.Ring
import Paillier.Proofs.Number.BigEndian
import Paillier.Proofs.Randomness.Filter

/-!
# Counting the streams

A source of entropy is fair if each string of bytes is as likely as any other of its length. So how likely a value is
tells the number of strings of one length for which it is given. For a search that number follows from the single blocks:
if two values are accepted from equally many blocks, then they are found in equally many streams of any length. The
induction is on the number of blocks. Either the first one is accepted already, or the others decide.

## Main statements

* `byteCount_append`, `byteCount_ofBigEndian` — counting strings part by part, and by their value.
* `firstCount_succ`, `firstCount_eq` — the streams in which a value is found first.
* `Sampler.FindsFirst.uniform` — a search gives all its values equally often.
-/

namespace Paillier

attribute [local instance] natPow

/-! ## Strings of bytes -/

/-- The number of byte strings of a length that have a property. -/
noncomputable def byteCount (length : Nat) (has : Bytes → Prop) : Nat :=
  {data : Bytes | data.length = length ∧ has data}.ncard

section

variable {length : Nat} {P Q : Bytes → Prop}

theorem finite_bytes (length : Nat) (has : Bytes → Prop) : {data : Bytes | data.length = length ∧ has data}.Finite :=
  (Set.finite_lt_nat (256 ^ length)).of_injOn (f := ofBigEndian) (fun data h => h.1 ▸ ofBigEndian_lt data)
    fun _ ha _ hb => ofBigEndian_inj (ha.1.trans hb.1.symm)

theorem byteCount_congr (h : ∀ data, data.length = length → (P data ↔ Q data)) :
    byteCount length P = byteCount length Q := by
  have hsame : {data : Bytes | data.length = length ∧ P data} = {data | data.length = length ∧ Q data} :=
    Set.ext fun data => and_congr_right (h data)
  rw [byteCount, byteCount, hsame]

theorem byteCount_pos_iff : 0 < byteCount length P ↔ ∃ data, data.length = length ∧ P data :=
  Set.ncard_pos (finite_bytes length P)

/-- Two properties that exclude each other. -/
theorem byteCount_or (h : ∀ data, data.length = length → P data → ¬ Q data) :
    byteCount length (fun data => P data ∨ Q data) = byteCount length P + byteCount length Q := by
  have hdisjoint : Disjoint {data : Bytes | data.length = length ∧ P data} {data | data.length = length ∧ Q data} :=
    Set.disjoint_left.mpr fun data hp hq => h data hp.1 hp.2 hq.2
  rw [byteCount, byteCount, byteCount, ← Set.ncard_union_eq hdisjoint (finite_bytes length P) (finite_bytes length Q)]
  congr 1
  ext data
  exact and_or_left

/-- **A string of two parts is a pair of strings.** -/
theorem byteCount_append (m n : Nat) (P Q : Bytes → Prop) :
    byteCount (m + n) (fun data => P (data.take m) ∧ Q (data.drop m)) = byteCount m P * byteCount n Q := by
  rw [byteCount, byteCount, byteCount, ← Set.ncard_prod]
  refine Set.ncard_congr (fun data _ => (data.take m, data.drop m)) ?_ ?_ ?_
  · rintro data ⟨hlen, hp, hq⟩
    have hfront : (data.take m).length = m := List.length_take_of_le (by omega)
    have hback : (data.drop m).length = n := by
      rw [List.length_drop]
      omega
    exact ⟨⟨hfront, hp⟩, ⟨hback, hq⟩⟩
  · intro a b _ _ h
    obtain ⟨hfront, hback⟩ := Prod.mk.inj h
    rw [← List.take_append_drop m a, hfront, hback, List.take_append_drop]
  · rintro ⟨front, back⟩ ⟨⟨hfront, hp⟩, ⟨hback, hq⟩⟩
    have htake : (front ++ back).take m = front := List.take_left' hfront
    have hdrop : (front ++ back).drop m = back := List.drop_left' hfront
    refine ⟨front ++ back, ⟨?_, ?_, ?_⟩, ?_⟩
    · rw [List.length_append, hfront, hback]
    · rwa [htake]
    · rwa [hdrop]
    · rw [htake, hdrop]

/-- **A string of a known length is its value.** -/
theorem byteCount_ofBigEndian (length : Nat) (has : Nat → Prop) :
    byteCount length (fun data => has (ofBigEndian data)) = {x | x < 256 ^ length ∧ has x}.ncard := by
  refine Set.ncard_congr (fun data _ => ofBigEndian data) ?_ ?_ ?_
  · rintro data ⟨rfl, hdata⟩
    exact ⟨ofBigEndian_lt data, hdata⟩
  · intro a b ha hb h
    exact ofBigEndian_inj (ha.1.trans hb.1.symm) h
  · rintro x ⟨hx, hhas⟩
    obtain ⟨data, hdata⟩ : ∃ data, paddedBigEndian x length = .ok data := by
      rw [paddedBigEndian_eq, if_neg (Nat.not_lt.mpr (byteLength_le_iff.mpr hx))]
      exact ⟨_, rfl⟩
    obtain ⟨hlen, rfl⟩ := paddedBigEndian_eq_ok_iff.mp hdata
    exact ⟨data, ⟨hlen, hhas⟩, rfl⟩

theorem ncard_lt (n : Nat) : {x | x < n}.ncard = n := by
  rw [show {x | x < n} = ↑(Finset.range n) from (Finset.coe_range n).symm, Set.ncard_coe_finset, Finset.card_range]

theorem byteCount_true (length : Nat) : byteCount length (fun _ => True) = 2 ^ (8 * length) := by
  rw [byteCount_ofBigEndian length fun _ => True, two_pow_eight_mul]
  simp only [and_true, ncard_lt]

end

/-! ## Numbers in two parts -/

section

/-- **A number below a product is a remainder and a quotient.** -/
theorem ncard_mod_div (a b : Nat) (P Q : Nat → Prop) :
    {x | x < a * b ∧ P (x % a) ∧ Q (x / a)}.ncard = {y | y < a ∧ P y}.ncard * {z | z < b ∧ Q z}.ncard := by
  rw [← Set.ncard_prod]
  refine Set.ncard_congr (fun x _ => (x % a, x / a)) ?_ ?_ ?_
  · rintro x ⟨hx, hp, hq⟩
    have ha : 0 < a := Nat.pos_of_mul_pos_right (Nat.zero_lt_of_lt hx)
    exact ⟨⟨Nat.mod_lt x ha, hp⟩, ⟨Nat.div_lt_of_lt_mul hx, hq⟩⟩
  · intro x y _ _ h
    obtain ⟨hmod, hdiv⟩ := Prod.mk.inj h
    rw [← Nat.mod_add_div x a, hmod, hdiv, Nat.mod_add_div]
  · rintro ⟨y, z⟩ ⟨⟨hy, hp⟩, ⟨hz, hq⟩⟩
    have hmod : (y + a * z) % a = y := by rw [Nat.add_mul_mod_self_left, Nat.mod_eq_of_lt hy]
    have hdiv : (y + a * z) / a = z := by
      rw [Nat.add_mul_div_left _ _ (Nat.zero_lt_of_lt hy), Nat.div_eq_of_lt hy, Nat.zero_add]
    refine ⟨y + a * z, ⟨?_, ?_, ?_⟩, ?_⟩
    · calc y + a * z < a + a * z := Nat.add_lt_add_right hy _
        _ = a * (z + 1) := by ring
        _ ≤ a * b := Nat.mul_le_mul_left a hz
    · rwa [hmod]
    · rwa [hdiv]
    · rw [hmod, hdiv]

/-- The numbers with one quotient. -/
theorem ncard_div_eq {a b m : Nat} (h : m < b) : {x | x < a * b ∧ x / a = m}.ncard = a := by
  have hsingle : {z | z < b ∧ z = m} = {m} := by
    ext z
    exact ⟨fun hz => hz.2, fun hz => ⟨hz ▸ h, hz⟩⟩
  have hparts := ncard_mod_div a b (fun _ => True) (· = m)
  simpa only [true_and, and_true, ncard_lt, hsingle, Set.ncard_singleton, Nat.mul_one] using hparts

/-- **The bits above a length are free**, so each remainder comes from the same number of strings. -/
theorem byteCount_mod {length bits : Nat} (hbits : bits ≤ 8 * length) (has : Nat → Prop) :
    byteCount length (fun data => has (ofBigEndian data % 2 ^ bits)) =
      {x | x < 2 ^ bits ∧ has x}.ncard * 2 ^ (8 * length - bits) := by
  have hsplit : 256 ^ length = 2 ^ bits * 2 ^ (8 * length - bits) := by
    rw [← Nat.pow_add, ← two_pow_eight_mul, Nat.add_sub_of_le hbits]
  have hparts := ncard_mod_div (2 ^ bits) (2 ^ (8 * length - bits)) has fun _ => True
  simp only [and_true, ncard_lt] at hparts
  rw [byteCount_ofBigEndian length fun x => has (x % 2 ^ bits), hsplit, hparts]

end

/-! ## Streams of blocks -/

section

variable {α : Type} {width i t : Nat} {accept : Bytes → Option α} {entropy : Bytes} {a b : α}

/-- The number of streams of `t` blocks in which the first block that is accepted is accepted as `a`. -/
noncomputable def firstCount (width : Nat) (accept : Bytes → Option α) (t : Nat) (a : α) : Nat :=
  byteCount (width * t) fun entropy => ∃ i, FirstAccepted width accept entropy i a

/-- The blocks behind the first one. -/
theorem blockAt_drop (width : Nat) (entropy : Bytes) (i : Nat) :
    blockAt width (entropy.drop width) i = blockAt width entropy (i + 1) := by
  rw [blockAt, blockAt, List.drop_drop, Nat.mul_succ, Nat.add_comm]

/-- **Either the first block is accepted, or the others decide.** -/
theorem exists_firstAccepted_iff (hlen : width ≤ entropy.length) :
    (∃ i, FirstAccepted width accept entropy i a) ↔
      accept (entropy.take width) = some a ∨
        accept (entropy.take width) = none ∧ ∃ i, FirstAccepted width accept (entropy.drop width) i a := by
  constructor
  · rintro ⟨i, hcomplete, haccepted, hearlier⟩
    cases i with
    | zero => exact Or.inl haccepted
    | succ i =>
      refine Or.inr ⟨hearlier 0 (Nat.succ_pos i), i, ?_, ?_, fun j hj => ?_⟩
      · rw [List.length_drop]
        rw [Nat.mul_succ] at hcomplete
        omega
      · rwa [blockAt_drop]
      · rw [blockAt_drop]
        exact hearlier (j + 1) (Nat.succ_lt_succ hj)
  · rintro (haccepted | ⟨hrejected, i, hcomplete, haccepted, hearlier⟩)
    · exact ⟨0, by rwa [Nat.mul_one], haccepted, fun j hj => absurd hj (Nat.not_lt_zero j)⟩
    · refine ⟨i + 1, ?_, ?_, fun j hj => ?_⟩
      · rw [List.length_drop] at hcomplete
        rw [Nat.mul_succ]
        omega
      · rwa [← blockAt_drop]
      · cases j with
        | zero => exact hrejected
        | succ j =>
          rw [← blockAt_drop]
          exact hearlier j (Nat.lt_of_succ_lt_succ hj)

theorem firstCount_zero (hwidth : 0 < width) : firstCount width accept 0 a = 0 := by
  refine Nat.eq_zero_of_not_pos fun hpos => ?_
  obtain ⟨entropy, hlen, i, hcomplete, -⟩ := byteCount_pos_iff.mp hpos
  have hle : width ≤ width * (i + 1) := Nat.le_mul_of_pos_right width (Nat.succ_pos i)
  omega

/-- **One block more is in front of the others.** -/
theorem firstCount_succ :
    firstCount width accept (t + 1) a =
      byteCount width (accept · = some a) * 2 ^ (8 * (width * t)) +
        byteCount width (accept · = none) * firstCount width accept t a := by
  have hall : ∀ entropy : Bytes, accept (entropy.take width) = some a ↔
      accept (entropy.take width) = some a ∧ True := fun entropy => (and_iff_left trivial).symm
  have hlen : width * (t + 1) = width + width * t := by ring
  calc firstCount width accept (t + 1) a
      = byteCount (width + width * t) (fun entropy =>
          (accept (entropy.take width) = some a ∧ True) ∨ (accept (entropy.take width) = none ∧
            ∃ i, FirstAccepted width accept (entropy.drop width) i a)) := by
        rw [firstCount, hlen]
        refine byteCount_congr fun entropy hentropy => ?_
        rw [exists_firstAccepted_iff (by omega), ← hall]
    _ = byteCount (width + width * t) (fun entropy => accept (entropy.take width) = some a ∧ True) +
          byteCount (width + width * t) (fun entropy => accept (entropy.take width) = none ∧
            ∃ i, FirstAccepted width accept (entropy.drop width) i a) := by
        refine byteCount_or fun entropy _ hsome hnone => ?_
        rw [hsome.1] at hnone
        cases hnone.1
    _ = _ := by
        rw [byteCount_append _ _ (accept · = some a) fun _ => True, byteCount_true,
          byteCount_append _ _ (accept · = none) fun entropy => ∃ i, FirstAccepted width accept entropy i a, firstCount]

/-- **Values that are accepted from equally many blocks are found in equally many streams.** -/
theorem firstCount_eq (hwidth : 0 < width)
    (h : byteCount width (accept · = some a) = byteCount width (accept · = some b)) (t : Nat) :
    firstCount width accept t a = firstCount width accept t b := by
  induction t with
  | zero => rw [firstCount_zero hwidth, firstCount_zero hwidth]
  | succ t ih => rw [firstCount_succ, firstCount_succ, h, ih]

/-- A value that is accepted from some block may come first. -/
theorem firstCount_pos (h : 0 < byteCount width (accept · = some a)) (ht : 0 < t) :
    0 < firstCount width accept t a := by
  obtain ⟨t, rfl⟩ := Nat.exists_eq_succ_of_ne_zero (Nat.ne_of_gt ht)
  rw [firstCount_succ]
  exact Nat.add_pos_left (Nat.mul_pos h (Nat.two_pow_pos _)) _

end

/-! ## Samplers -/

namespace Sampler

variable {α : Type} {sampler : Sampler α} {width : Nat} {accept : Bytes → Option α} {hit : Nat → List Event}
  {miss : Bytes → List Event} {a b : α}

/-- The number of streams of a length from which the sampler gives the value. -/
noncomputable def streamCount (sampler : Sampler α) (length : Nat) (a : α) : Nat :=
  byteCount length fun entropy => (sampler.runOn ⟨entropy, []⟩).1 = .ok a

theorem FindsFirst.streamCount_eq (h : ∀ source, sampler.FindsFirst width accept hit miss source) (t : Nat) (a : α) :
    sampler.streamCount (width * t) a = firstCount width accept t a :=
  byteCount_congr fun entropy _ => (h ⟨entropy, []⟩).exists_first_iff

/--
The sampler gives these values and no others, and over all streams of so many blocks it gives each of them equally
often; if there is at least one block, it gives each of them for some stream.
-/
structure Uniform (sampler : Sampler α) (width : Nat) (values : Set α) : Prop where
  mem : ∀ source a, (sampler.runOn source).1 = .ok a → a ∈ values
  equal : ∀ t, ∀ a ∈ values, ∀ b ∈ values, sampler.streamCount (width * t) a = sampler.streamCount (width * t) b
  possible : ∀ t, 0 < t → ∀ a ∈ values, 0 < sampler.streamCount (width * t) a

/-- **A search gives all its values equally often** if each is accepted from the same number of blocks. -/
theorem FindsFirst.uniform (h : ∀ source, sampler.FindsFirst width accept hit miss source) (hwidth : 0 < width)
    {values : Set α} {share : Nat} (hshare : 0 < share)
    (hvalues : ∀ a ∈ values, byteCount width (accept · = some a) = share)
    (hmem : ∀ block a, block.length = width → accept block = some a → a ∈ values) : sampler.Uniform width values where
  mem source a hrun := by
    obtain ⟨i, hfirst⟩ := (h source).exists_first_iff.mp hrun
    exact hmem _ a (length_blockAt hfirst.complete) hfirst.accepted
  equal t a ha b hb := by
    rw [FindsFirst.streamCount_eq h, FindsFirst.streamCount_eq h]
    exact firstCount_eq hwidth ((hvalues a ha).trans (hvalues b hb).symm) t
  possible t ht a ha := by
    rw [FindsFirst.streamCount_eq h]
    exact firstCount_pos (by rwa [hvalues a ha]) ht

end Sampler

end Paillier
