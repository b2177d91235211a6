import Paillier.Number.Capacity
import Paillier.Number.Primality
import Paillier.Randomness.Entropy

/-!
# Random numbers and random primes

Both are drawn by rejection. A number below `n` comes from as many bytes as `n` has: the bits above the
length of `n` are cleared and the result counts if it is below `n`. A prime comes from a candidate whose two
top bits are set, so that the product of two of them has full length, and whose last three bits are given.

Before the first draw scratch space for one draw is reserved.

## Termination

Every round draws at least one byte (`takes_drawBelow`, `takes_drawPrime`).
-/

namespace Paillier

attribute [local instance] natPow

/-! ## Scratch space -/

/-- The number of bytes from which on scratch space cannot be reserved. -/
def scratchLimit : Nat := 2 ^ (36 : Nat)

/-- Reserves scratch space for `bits` bits, which are counted up to a whole byte. -/
def reserveScratch (bits : Nat) : Outcome Unit :=
  if countLimit ≤ bits + 7 then fault .lengthOverflow
  else if scratchLimit ≤ bytesForBits bits then refuse .outOfMemory
  else .ok ()

theorem bytesForBits_pos {bits : Nat} (h : 0 < bits) : 0 < bytesForBits bits := by
  unfold bytesForBits
  omega

/-! ## Random numbers -/

/-- One draw of a number below `n`. As it is read from bytes, it carries a plus, even zero. -/
def drawBelow (n : Number) : Sampler (Option Number) := do
  let bits := bitLength n.magnitude
  let block ← Sampler.draw (bytesForBits bits)
  let value ← numberOfBytes block
  let candidate := Number.positive (value.magnitude % 2 ^ bits)
  if candidate < n then return some candidate
  else
    Sampler.record .valueOutOfRange
    return none

theorem takes_drawBelow {n : Number} (h : 0 < bitLength n.magnitude) : (drawBelow n).Takes := by
  refine Sampler.takes_bind (Sampler.takes_draw (bytesForBits_pos h)) fun block => ?_
  refine Sampler.keeps_bind (Sampler.keeps_outcome _) fun value => ?_
  dsimp only
  split
  · exact Sampler.keeps_pure _
  · exact Sampler.keeps_bind (Sampler.keeps_record _) fun _ => Sampler.keeps_pure _

/-- A uniformly distributed number in `[0, n)`. -/
def randomBelow (n : Number) : Sampler Number :=
  if h : 0 < bitLength n.magnitude ∧ 0 ≤ n then do
    reserveScratch (bitLength n.magnitude)
    Sampler.untilSome (fun _ => drawBelow n) fun _ => takes_drawBelow h.1
  else Sampler.refuse .invalidParameter

theorem takes_randomBelow (n : Number) : (randomBelow n).Takes := by
  unfold randomBelow
  split
  · exact Sampler.takes_bind_of_keeps (Sampler.keeps_outcome _) fun _ => Sampler.takes_untilSome _ _
  · exact Sampler.takes_refuse _

/-! ## Random primes -/

/--
The candidate for a prime of `bits` bits that a random number stands for: the two top bits are set, the
three last bits are `residue`, and the bits between are those of the number.
-/
def primeCandidate (bits residue value : Nat) : Nat :=
  3 * 2 ^ (bits - 2) + value % 2 ^ (bits - 2) / 8 * 8 + residue

/-- One draw of a prime of `bits` bits, the `attempt`-th. -/
def drawPrime (bits residue attempt : Nat) : Sampler (Option Nat) := do
  let block ← Sampler.draw (bytesForBits bits)
  let value ← numberOfBytes block
  let candidate := primeCandidate bits residue value.magnitude
  if isPrime candidate then
    Sampler.record (.primeFound bits residue attempt)
    return some candidate
  else return none

theorem takes_drawPrime {bits : Nat} (h : 0 < bits) (residue attempt : Nat) :
    (drawPrime bits residue attempt).Takes := by
  refine Sampler.takes_bind (Sampler.takes_draw (bytesForBits_pos h)) fun block => ?_
  refine Sampler.keeps_bind (Sampler.keeps_outcome _) fun value => ?_
  dsimp only
  split
  · exact Sampler.keeps_bind (Sampler.keeps_record _) fun _ => Sampler.keeps_pure _
  · exact Sampler.keeps_pure _

/-- A random prime of exactly `bits` bits that is `residue` modulo 8. -/
def randomPrime (bits residue : Nat) : Sampler Nat :=
  if h : 8 ≤ bits ∧ residue < 8 ∧ residue % 2 = 1 then do
    reserveScratch bits
    Sampler.untilSome (drawPrime bits residue) fun attempt =>
      takes_drawPrime (Nat.lt_of_lt_of_le (by decide) h.1) residue attempt
  else Sampler.refuse .invalidParameter

theorem takes_randomPrime (bits residue : Nat) : (randomPrime bits residue).Takes := by
  unfold randomPrime
  split
  · exact Sampler.takes_bind_of_keeps (Sampler.keeps_outcome _) fun _ => Sampler.takes_untilSome _ _
  · exact Sampler.takes_refuse _

end Paillier
