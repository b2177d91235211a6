import Paillier.Proofs.Ciphertext.Encryption
import Paillier.Proofs.Key.Modulus
import Paillier.Proofs.Randomness.Below

/-!
# Nonces are uniform

A nonce is drawn in two loops, one in the other: the inner one looks for a number below `N`, the outer one for one that
is coprime to `N`. Both take their blocks from the same source, so they are one search for both conditions, and its values
are the units.

## Main statements

* `PublicKey.Sound.randomNonce_eq_untilSome` — the two loops are one search.
* `PublicKey.randomNonce_uniform` — what a nonce is, how much it takes, and that it is uniform.
-/

namespace Paillier

open Number (positive)

namespace PublicKey

variable {pk : PublicKey}

/-- The second condition for a nonce, on a number below `N`. -/
def keepUnit (pk : PublicKey) (r : Number) : Sampler (Option Number) := do
  if isCoprime r pk.modulus then return some r
  else
    Sampler.record .nonceNotUnit
    return none

theorem keeps_keepUnit (pk : PublicKey) (r : Number) : (pk.keepUnit r).Keeps := by
  unfold keepUnit
  split
  · exact Sampler.keeps_pure _
  · exact Sampler.keeps_bind (Sampler.keeps_record _) fun _ => Sampler.keeps_pure _

theorem drawNonce_eq_bind (pk : PublicKey) : pk.drawNonce = randomBelow pk.modulus >>= pk.keepUnit := rfl

/-- What is recorded of a block in vain: whether its value was too large, or no unit. -/
def nonceMiss (n : Nat) (block : Bytes) : List Event :=
  if (valueOfBlock n (· < n) block).isSome then [.nonceNotUnit] else [.valueOutOfRange]

namespace Sound

theorem takes_drawBelow_checking (h : pk.Sound) :
    (Sampler.checking (drawBelow (positive pk.n)) pk.keepUnit).Takes :=
  Sampler.takes_checking (takes_drawBelow (bitLength_pos h.pos)) pk.keeps_keepUnit

/-- **The two loops are one search.** -/
theorem randomNonce_eq_untilSome (h : pk.Sound) :
    pk.randomNonce = Sampler.untilSome (fun _ => Sampler.checking (drawBelow (positive pk.n)) pk.keepUnit)
      fun _ => h.takes_drawBelow_checking := by
  have hinner : pk.drawNonce =
      Sampler.untilSome (fun _ => drawBelow (positive pk.n)) (fun _ => takes_drawBelow (bitLength_pos h.pos)) >>=
        pk.keepUnit := by
    rw [drawNonce_eq_bind, h.modulus_eq, randomBelow_eq_untilSome h.lt_capacity h.pos]
  rw [randomNonce, Sampler.untilSome_congr _ fun _ => hinner, Sampler.untilSome_untilSome]

/-- Its rounds take a block each. -/
theorem triesBlocks_checking (h : pk.Sound) :
    Sampler.TriesBlocks (fun _ => Sampler.checking (drawBelow (positive pk.n)) pk.keepUnit) (byteLength pk.n)
      (valueOfBlock pk.n fun v => v < pk.n ∧ v.Coprime pk.n) (fun _ => []) (nonceMiss pk.n) := by
  have hboth : (valueOfBlock pk.n fun v => v < pk.n ∧ v.Coprime pk.n) = fun block =>
      (valueOfBlock pk.n (· < pk.n) block).bind fun r => if isCoprime r pk.modulus then some r else none := by
    funext block
    have hunit : ∀ v, isCoprime (positive v) (positive pk.n) = true ↔ v.Coprime pk.n := fun _ => isCoprime_iff h.pos
    rw [h.modulus_eq, valueOfBlock, valueOfBlock]
    generalize ofBigEndian (maskTopByte (bitLength pk.n) block) = v
    by_cases hlt : v < pk.n
    · by_cases hcop : v.Coprime pk.n <;> simp [hlt, hcop, hunit]
    · simp [hlt]
  rw [hboth]
  refine (triesBlocks_drawBelow h.lt_capacity h.pos).checking _ [.nonceNotUnit] ?_ ?_
  · intro r s source hs
    rw [keepUnit]
    split at hs
    · next hunit =>
      cases hs
      rw [if_pos hunit, Sampler.runOn_pure]
    · cases hs
  · intro r source hnone
    rw [keepUnit]
    split at hnone
    · cases hnone
    · next hunit =>
      rw [if_neg hunit]
      rfl

theorem findsFirst_randomNonce (h : pk.Sound) (source : Source) :
    pk.randomNonce.FindsFirst (byteLength pk.n) (valueOfBlock pk.n fun v => v < pk.n ∧ v.Coprime pk.n) (fun _ => [])
      (nonceMiss pk.n) source := by
  rw [h.randomNonce_eq_untilSome]
  exact h.triesBlocks_checking.findsFirst _ (bytesForBits_pos (bitLength_pos h.pos)) source

/-- Zero is no unit, so the search never finds it. -/
theorem uniform_randomNonce (h : pk.Sound) :
    pk.randomNonce.Uniform (byteLength pk.n) (positive '' {j | (1 ≤ j ∧ j < pk.n) ∧ j.Coprime pk.n}) := by
  have hunits : {j | (1 ≤ j ∧ j < pk.n) ∧ j.Coprime pk.n} = {j | j < pk.n ∧ j.Coprime pk.n} := by
    ext j
    exact ⟨fun hj => ⟨hj.1.2, hj.2⟩, fun hj => ⟨⟨h.one_le_of_coprime hj.2, hj.1⟩, hj.2⟩⟩
  rw [hunits]
  exact Sampler.FindsFirst.uniform_valueOfBlock h.findsFirst_randomNonce h.pos fun _ hv => hv.1

end Sound

/--
**Nonces are exact and uniform**, for every modulus that is accepted and every source.

The value of the first block that is below `N` and coprime to it is found, whichever of the two loops has rejected those
before it. So it is never zero, and each of the units in `[1, N)` is found for equally many streams.
-/
theorem randomNonce_uniform {n : Nat} (accepted : ofModulus n = .ok pk) :
    (∀ source, pk.randomNonce.FindsFirst (byteLength n) (valueOfBlock n fun v => v < n ∧ v.Coprime n) (fun _ => [])
      (nonceMiss n) source) ∧
    pk.randomNonce.Uniform (byteLength n) (positive '' {j | (1 ≤ j ∧ j < n) ∧ j.Coprime n}) := by
  obtain ⟨hsound, rfl⟩ := sound_of_ofModulus accepted
  exact ⟨hsound.findsFirst_randomNonce, hsound.uniform_randomNonce⟩

/--
Modulo a power of three the first block is too large and the second one is no unit; the third one is found. The smallest
unit and the largest one are given equally often.
-/
theorem randomNonce_uniform_powerOfThree :
    ∃ (n : Nat) (pk : PublicKey), n = 3 ^ 161 ∧ ofModulus n = .ok pk ∧
      pk.randomNonce.runOn
          ⟨List.replicate 32 0xff ++ (List.replicate 31 0 ++ [3]) ++ (List.replicate 31 0 ++ [2]) ++ [7], []⟩ =
        (.ok (positive 2), ⟨[7], [.nonceNotUnit, .valueOutOfRange]⟩) ∧
      ∀ t, pk.randomNonce.streamCount (32 * t) (positive 1) =
        pk.randomNonce.streamCount (32 * t) (positive (n - 1)) := by
  have hlen : byteLength (3 ^ 161) = 32 := by decide +kernel
  obtain ⟨hfinds, huniform⟩ := randomNonce_uniform ofModulus_powerOfThree
  have hfirst : FirstAccepted (byteLength (3 ^ 161)) (valueOfBlock (3 ^ 161) fun v => v < 3 ^ 161 ∧ v.Coprime (3 ^ 161))
      (List.replicate 32 0xff ++ (List.replicate 31 0 ++ [3]) ++ (List.replicate 31 0 ++ [2]) ++ [7]) 2
      (positive 2) := ⟨by decide +kernel, by decide +kernel, by decide +kernel⟩
  refine ⟨3 ^ 161, ⟨(3 ^ 161 : Nat)⟩, rfl, ofModulus_powerOfThree, ((hfinds ⟨_, []⟩).eq_ok_iff _ _).mpr ⟨2, hfirst, ?_⟩,
    fun t => ?_⟩
  · decide +kernel
  · have hequal := huniform.equal t _ ⟨1, by decide +kernel, rfl⟩ _ ⟨3 ^ 161 - 1, by decide +kernel, rfl⟩
    rwa [hlen] at hequal

end PublicKey

end Paillier
