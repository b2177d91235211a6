import Paillier.Proofs.Randomness.Prime

/-!
# Searches block by block

Most rounds of a search take one block of the source, and what comes of it depends on the bytes of the block alone. Then
the search finds the first block that is accepted, and has taken that block and those before it; or it comes to the end
of the source, where no complete block is left.

## Main statements

* `exists_firstAccepted_or_noneAccepted` — there is a first block that is accepted, or none is.
* `Sampler.TriesBlocks.untilSomeFrom_of_rejected` — past blocks that are rejected a search goes on behind them.
* `Sampler.TriesBlocks.runOn_untilSome_of_first`, `runOn_untilSome_of_none` — what a search does in both cases.
* `runOn_randomPrime_of_first`, `runOn_randomPrime_of_none` — what this means for random primes.
-/

namespace Paillier

/-! ## Blocks of a source -/

section

variable {α : Type} {width i j : Nat} {accept : Bytes → Option α} {entropy : Bytes} {a b : α}

/-- The `i`-th block, counted from zero. -/
def blockAt (width : Nat) (entropy : Bytes) (i : Nat) : Bytes := (entropy.drop (width * i)).take width

theorem length_blockAt (hcomplete : width * (i + 1) ≤ entropy.length) : (blockAt width entropy i).length = width := by
  rw [Nat.mul_succ] at hcomplete
  rw [blockAt, List.length_take, List.length_drop]
  omega

/-- The bytes behind the last complete block. -/
def leftover (width : Nat) (entropy : Bytes) : Bytes := entropy.drop (width * (entropy.length / width))

/-- The `i`-th block is complete and accepted, as `a`, and none before it is. -/
structure FirstAccepted (width : Nat) (accept : Bytes → Option α) (entropy : Bytes) (i : Nat) (a : α) : Prop where
  complete : width * (i + 1) ≤ entropy.length
  accepted : accept (blockAt width entropy i) = some a
  earlier : ∀ j < i, accept (blockAt width entropy j) = none

/-- No complete block is accepted. -/
def NoneAccepted (width : Nat) (accept : Bytes → Option α) (entropy : Bytes) : Prop :=
  ∀ i, width * (i + 1) ≤ entropy.length → accept (blockAt width entropy i) = none

/-- **There is a first block that is accepted, or none is.** -/
theorem exists_firstAccepted_or_noneAccepted (width : Nat) (accept : Bytes → Option α) (entropy : Bytes) :
    (∃ i a, FirstAccepted width accept entropy i a) ∨ NoneAccepted width accept entropy := by
  classical
  by_cases h : ∃ i, width * (i + 1) ≤ entropy.length ∧ accept (blockAt width entropy i) ≠ none
  · obtain ⟨hcomplete, hsome⟩ := Nat.find_spec h
    obtain ⟨a, ha⟩ := Option.ne_none_iff_exists'.mp hsome
    refine Or.inl ⟨Nat.find h, a, hcomplete, ha, fun j hj => ?_⟩
    by_contra hne
    have hle : width * (j + 1) ≤ width * (Nat.find h + 1) := Nat.mul_le_mul_left _ (by omega)
    exact Nat.find_min h hj ⟨Nat.le_trans hle hcomplete, hne⟩
  · refine Or.inr fun i hcomplete => ?_
    by_contra hne
    exact h ⟨i, hcomplete, hne⟩

/-- There is only one first block. -/
theorem FirstAccepted.unique (ha : FirstAccepted width accept entropy i a)
    (hb : FirstAccepted width accept entropy j b) : i = j ∧ a = b := by
  rcases Nat.lt_trichotomy i j with hlt | rfl | hlt
  · have hnone := hb.earlier i hlt
    rw [ha.accepted] at hnone
    cases hnone
  · exact ⟨rfl, Option.some.inj (ha.accepted.symm.trans hb.accepted)⟩
  · have hnone := ha.earlier j hlt
    rw [hb.accepted] at hnone
    cases hnone

theorem FirstAccepted.not_noneAccepted (h : FirstAccepted width accept entropy i a) :
    ¬ NoneAccepted width accept entropy := by
  intro hnone
  have hrejected := hnone i h.complete
  rw [h.accepted] at hrejected
  cases hrejected

end

/-! ## Searches -/

namespace Sampler

variable {α : Type}

/--
Each round takes the next block, of `width` bytes, and gives what it is accepted as. The rounds that find something
record `hit`, which may tell their number, and the others `miss`, which may tell why the block was rejected.
-/
structure TriesBlocks (round : Nat → Sampler (Option α)) (width : Nat) (accept : Bytes → Option α)
    (hit : Nat → List Event) (miss : Bytes → List Event) : Prop where
  starves : ∀ number source, source.entropy.length < width →
    (round number).runOn source = (Paillier.refuse .entropyFailure, source)
  accepts : ∀ number source a, width ≤ source.entropy.length → accept (source.entropy.take width) = some a →
    (round number).runOn source = (.ok (some a), ⟨source.entropy.drop width, hit number ++ source.events⟩)
  rejects : ∀ number source, width ≤ source.entropy.length → accept (source.entropy.take width) = none →
    (round number).runOn source =
      (.ok none, ⟨source.entropy.drop width, miss (source.entropy.take width) ++ source.events⟩)

/-- What is recorded of the first `count` blocks if they are rejected, newest first. -/
def missed (width : Nat) (miss : Bytes → List Event) (entropy : Bytes) : (count : Nat) → List Event
  | 0 => []
  | count + 1 => miss (blockAt width entropy count) ++ missed width miss entropy count

@[simp] theorem missed_nothing (width : Nat) (entropy : Bytes) (count : Nat) :
    missed width (fun _ => []) entropy count = [] := by
  induction count with
  | zero => rfl
  | succ count ih => rw [missed, ih, List.append_nil]

/-- The source after `count` blocks that were rejected. -/
def afterMisses (width : Nat) (miss : Bytes → List Event) (count : Nat) (source : Source) : Source :=
  ⟨source.entropy.drop (width * count), missed width miss source.entropy count ++ source.events⟩

theorem afterMisses_succ (width : Nat) (miss : Bytes → List Event) (count : Nat) (source : Source) :
    afterMisses width miss (count + 1) source =
      ⟨(afterMisses width miss count source).entropy.drop width,
        miss ((afterMisses width miss count source).entropy.take width) ++
          (afterMisses width miss count source).events⟩ := by
  simp only [afterMisses, List.drop_drop, Nat.mul_succ, missed, List.append_assoc]
  rfl

theorem length_afterMisses (width : Nat) (miss : Bytes → List Event) (count : Nat) (source : Source) :
    (afterMisses width miss count source).entropy.length = source.entropy.length - width * count :=
  List.length_drop

namespace TriesBlocks

variable {round : Nat → Sampler (Option α)} {width i : Nat} {accept : Bytes → Option α} {hit : Nat → List Event}
  {miss : Bytes → List Event} {source : Source} {a : α}

/-- **Past blocks that are rejected the search goes on behind them.** The induction adds the last of them. -/
theorem untilSomeFrom_of_rejected (h : TriesBlocks round width accept hit miss)
    (takes : ∀ number, (round number).Takes) (number : Nat) (hcomplete : width * i ≤ source.entropy.length)
    (hrejected : ∀ j < i, accept (blockAt width source.entropy j) = none) :
    untilSomeFrom round takes number source =
      untilSomeFrom round takes (number + i) (afterMisses width miss i source) := by
  induction i with
  | zero => rfl
  | succ i ih =>
    rw [Nat.mul_succ] at hcomplete
    have henough : width ≤ (afterMisses width miss i source).entropy.length := by
      rw [length_afterMisses]
      omega
    have hlast : accept ((afterMisses width miss i source).entropy.take width) = none :=
      hrejected i (Nat.lt_succ_self i)
    rw [ih (by omega) fun j hj => hrejected j (Nat.lt_succ_of_lt hj), untilSomeFrom_eq,
      h.rejects _ _ henough hlast, afterMisses_succ]
    rfl

/-- **A search gives what the first block is accepted as**, and has taken that block and those before it. -/
theorem runOn_untilSome_of_first (h : TriesBlocks round width accept hit miss)
    (takes : ∀ number, (round number).Takes) (hfirst : FirstAccepted width accept source.entropy i a) :
    (untilSome round takes).runOn source =
      (.ok a, ⟨source.entropy.drop (width * (i + 1)),
        hit (i + 1) ++ (missed width miss source.entropy i ++ source.events)⟩) := by
  have hcomplete := hfirst.complete
  rw [Nat.mul_succ] at hcomplete
  have henough : width ≤ (afterMisses width miss i source).entropy.length := by
    rw [length_afterMisses]
    omega
  rw [untilSome, runOn_ofRun, h.untilSomeFrom_of_rejected takes 1 (by omega) hfirst.earlier, untilSomeFrom_eq,
    h.accepts _ _ a henough hfirst.accepted]
  simp only [afterMisses, List.drop_drop, Nat.mul_succ, Nat.add_comm 1 i]

/-- **Where no block is accepted, a search takes all complete blocks** and ends for want of another. -/
theorem runOn_untilSome_of_none (h : TriesBlocks round width accept hit miss)
    (takes : ∀ number, (round number).Takes) (hwidth : 0 < width) (hnone : NoneAccepted width accept source.entropy) :
    (untilSome round takes).runOn source =
      (Paillier.refuse .entropyFailure,
        ⟨leftover width source.entropy,
          missed width miss source.entropy (source.entropy.length / width) ++ source.events⟩) := by
  have hrejected : ∀ j < source.entropy.length / width, accept (blockAt width source.entropy j) = none := by
    intro j hj
    refine hnone j (Nat.le_trans (Nat.mul_le_mul_left width hj) (Nat.mul_div_le _ _))
  have hshort : (afterMisses width miss (source.entropy.length / width) source).entropy.length < width := by
    rw [length_afterMisses, ← Nat.mod_eq_sub_mul_div]
    exact Nat.mod_lt _ hwidth
  rw [untilSome, runOn_ofRun, h.untilSomeFrom_of_rejected takes 1 (Nat.mul_div_le _ _) hrejected, untilSomeFrom_eq,
    h.starves _ _ hshort]
  rfl

end TriesBlocks

end Sampler

/-! ## Random primes -/

section

variable {bits residue i p : Nat} {source : Source}

/-- The prime that is made from a block, if the candidate is one. -/
def primeOfBlock (bits residue : Nat) (block : Bytes) : Option Nat :=
  let candidate := primeCandidate bits residue (ofBigEndian block)
  if isPrime candidate then some candidate else none

/-- The `i`-th block of the right length is the first one that is made into a prime, which is `p`. -/
def FirstPrime (bits residue : Nat) (entropy : Bytes) (i p : Nat) : Prop :=
  FirstAccepted (bytesForBits bits) (primeOfBlock bits residue) entropy i p

theorem FirstPrime.isCandidate {entropy : Bytes} (h : FirstPrime bits residue entropy i p) (hbits : 5 ≤ bits)
    (hresidue : residue < 8) : IsCandidate bits residue p ∧ isPrime p = true := by
  have hsome := h.accepted
  rw [primeOfBlock] at hsome
  split at hsome
  · next hpass =>
    cases hsome
    exact ⟨isCandidate_primeCandidate hbits hresidue _, hpass⟩
  · cases hsome

/-- No complete block is made into a prime. -/
def NoPrime (bits residue : Nat) (entropy : Bytes) : Prop :=
  NoneAccepted (bytesForBits bits) (primeOfBlock bits residue) entropy

theorem runOn_drawPrime (hcapacity : bits ≤ capacityBits) (henough : bytesForBits bits ≤ source.entropy.length)
    (attempt : Nat) :
    (drawPrime bits residue attempt).runOn source =
      match primeOfBlock bits residue (source.entropy.take (bytesForBits bits)) with
      | some p => (.ok (some p),
          ⟨source.entropy.drop (bytesForBits bits), .primeFound bits residue attempt :: source.events⟩)
      | none => (.ok none, ⟨source.entropy.drop (bytesForBits bits), source.events⟩) := by
  have hshort : (source.entropy.take (bytesForBits bits)).length ≤ capacityBytes :=
    Nat.le_trans (List.length_take_le _ _) (bytesForBits_le_capacityBytes_iff.mpr hcapacity)
  rw [drawPrime, Sampler.runOn_bind, Sampler.runOn_draw, if_neg (Nat.not_lt.mpr henough)]
  dsimp only
  rw [Sampler.runOn_bind, Sampler.runOn_outcome, numberOfBytes_eq_ok hshort]
  dsimp only
  rw [Number.magnitude_positive, primeOfBlock]
  split <;> rfl

theorem triesBlocks_drawPrime (hcapacity : bits ≤ capacityBits) (residue : Nat) :
    Sampler.TriesBlocks (drawPrime bits residue) (bytesForBits bits) (primeOfBlock bits residue)
      (fun attempt => [.primeFound bits residue attempt]) (fun _ => []) where
  starves attempt source hshort := by
    rw [drawPrime, Sampler.runOn_bind, Sampler.runOn_draw, if_pos hshort]
    rfl
  accepts attempt source p henough hp := by
    rw [runOn_drawPrime hcapacity henough, hp]
    rfl
  rejects attempt source henough hnone := by
    rw [runOn_drawPrime hcapacity henough, hnone]
    rfl

/-- A random prime is found by the search alone, as scratch space can be reserved. -/
theorem randomPrime_eq_untilSome (hbits : 8 ≤ bits) (hcapacity : bits ≤ capacityBits) (hresidue : residue < 8)
    (hodd : residue % 2 = 1) :
    randomPrime bits residue = Sampler.untilSome (drawPrime bits residue) fun attempt =>
      takes_drawPrime (Nat.lt_of_lt_of_le (by decide) hbits) residue attempt := by
  rw [randomPrime, dif_pos ⟨hbits, hresidue, hodd⟩, reserveScratch_eq_ok hcapacity]
  rfl

/-- **A random prime is made from the first block that a prime can be made from.** -/
theorem runOn_randomPrime_of_first (hbits : 8 ≤ bits) (hcapacity : bits ≤ capacityBits) (hresidue : residue < 8)
    (hodd : residue % 2 = 1) (source : Source) (hfirst : FirstPrime bits residue source.entropy i p) :
    (randomPrime bits residue).runOn source =
      (.ok p, ⟨source.entropy.drop (bytesForBits bits * (i + 1)),
        .primeFound bits residue (i + 1) :: source.events⟩) := by
  rw [randomPrime_eq_untilSome hbits hcapacity hresidue hodd,
    (triesBlocks_drawPrime hcapacity residue).runOn_untilSome_of_first _ hfirst, Sampler.missed_nothing]
  rfl

/-- **Where there is none, all complete blocks are taken in vain.** -/
theorem runOn_randomPrime_of_none (hbits : 8 ≤ bits) (hcapacity : bits ≤ capacityBits) (hresidue : residue < 8)
    (hodd : residue % 2 = 1) (source : Source) (hnone : NoPrime bits residue source.entropy) :
    (randomPrime bits residue).runOn source =
      (refuse .entropyFailure, ⟨leftover (bytesForBits bits) source.entropy, source.events⟩) := by
  have hwidth : 0 < bytesForBits bits := bytesForBits_pos (by omega)
  rw [randomPrime_eq_untilSome hbits hcapacity hresidue hodd,
    (triesBlocks_drawPrime hcapacity residue).runOn_untilSome_of_none _ hwidth hnone, Sampler.missed_nothing]
  rfl

end

end Paillier
