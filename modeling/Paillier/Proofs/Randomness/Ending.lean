import Paillier.Key.Generation
import Paillier.Proofs.Fault
import Paillier.Proofs.Randomness.Prime

/-!
# How a sampler ends

A sampler whose numbers can outgrow what can be held no longer yields values: it may end in a fault. Still, if it ends in
a refusal, the entropy has run out, and the values it gives have their properties. That is kept by sequences and by the
search for a good draw, like yielding is.

## Main statements

* `Ends.bind`, `Ends.untilSome` — the rules.
* `ends_randomPrime` — a random prime of any length is a candidate.
-/

namespace Paillier

open Outcome

/-- A value with this property, the refusal that blames the entropy, or a fault. -/
inductive Outcome.Ended {α : Type} (value : α → Prop) : Outcome α → Prop
  | value {a : α} (h : value a) : Ended value (.ok a)
  | starved : Ended value (refuse .entropyFailure)
  | fault (cause : Fault) : Ended value (fault cause)

theorem Outcome.Ended.mono {α : Type} {value other : α → Prop} {outcome : Outcome α} (h : Ended value outcome)
    (himp : ∀ a, value a → other a) : Ended other outcome := by
  cases h with
  | value ha => exact .value (himp _ ha)
  | starved => exact .starved
  | fault cause => exact .fault cause

namespace Sampler

variable {α β : Type}

/-- Every run ends in one of the three ways. -/
def Ends (sampler : Sampler α) (value : α → Prop) : Prop := ∀ source, Ended value (sampler.runOn source).1

/-- A sampler that yields values never ends in a fault. -/
theorem Yields.ends {sampler : Sampler α} {count : Nat} {value : α → Prop} (h : sampler.Yields count value) :
    sampler.Ends value := by
  intro source
  rcases h source with ⟨a, rest, hrun, ha⟩ | ⟨rest, hrun, -⟩
  · rw [hrun]
    exact .value ha
  · rw [hrun]
    exact .starved

theorem Yields.not_faults {sampler : Sampler α} {count : Nat} {value : α → Prop} (h : sampler.Yields count value)
    (source : Source) : ¬ (sampler.runOn source).1.Faults := by
  rcases h source with ⟨a, rest, hrun, -⟩ | ⟨rest, hrun, -⟩
  · rw [hrun]
    exact not_faults_ok a
  · rw [hrun]
    exact not_faults_refuse _

/-- A failure of the first step is that of the whole. -/
theorem runOn_bind_of_error {sampler : Sampler α} {source : Source} {failure : Failure}
    (h : (sampler.runOn source).1 = .error failure) (next : α → Sampler β) :
    ((sampler >>= next).runOn source).1 = .error failure := by
  rw [runOn_bind]
  rcases hrun : sampler.runOn source with ⟨outcome, rest⟩
  rw [hrun] at h
  cases h
  rfl

/-- A failure of the first round is that of the search. -/
theorem runOn_untilSome_of_error {round : Nat → Sampler (Option α)} (takes : ∀ number, (round number).Takes)
    {source : Source} {failure : Failure} (h : ((round 1).runOn source).1 = .error failure) :
    ((untilSome round takes).runOn source).1 = .error failure := by
  rw [untilSome, runOn_ofRun, untilSomeFrom_eq]
  rcases hrun : (round 1).runOn source with ⟨outcome, rest⟩
  rw [hrun] at h
  cases h
  rfl

theorem ends_pure {a : α} {value : α → Prop} (h : value a) : (pure a : Sampler α).Ends value := fun _ => .value h

theorem ends_record (event : Event) : (record event).Ends fun _ => True := fun _ => .value trivial

theorem ends_draw (count : Nat) : (draw count).Ends fun block => block.length = count := (yields_draw count).ends

/-- A step that examines nothing ends in a fault if it gives no value. -/
theorem ends_outcome {outcome : Outcome α} {value : α → Prop} (h : outcome.NeverRefuses)
    (hvalue : ∀ a, outcome = .ok a → value a) : (liftM outcome : Sampler α).Ends value := by
  intro source
  rw [runOn_outcome]
  rcases h.faults_or_ok with ⟨cause, rfl⟩ | ⟨a, rfl⟩
  · exact .fault cause
  · exact .value (hvalue a rfl)

namespace Ends

variable {sampler : Sampler α} {value : α → Prop}

theorem mono (h : sampler.Ends value) {other : α → Prop} (himp : ∀ a, value a → other a) :
    sampler.Ends other :=
  fun source => (h source).mono himp

/-- Two steps end as the second one ends for whatever the first one gives. -/
theorem bind (h : sampler.Ends value) {next : α → Sampler β} {result : β → Prop}
    (hnext : ∀ a, value a → (next a).Ends result) : (sampler >>= next).Ends result := by
  intro source
  have hfirst := h source
  rw [runOn_bind]
  rcases hrun : sampler.runOn source with ⟨outcome, rest⟩
  rw [hrun] at hfirst
  cases hfirst with
  | value ha => exact hnext _ ha rest
  | starved => exact .starved
  | fault cause => exact .fault cause

/-- **A search ends like its rounds do.** The induction is on the entropy that is left. -/
theorem untilSome {round : Nat → Sampler (Option α)} (takes : ∀ number, (round number).Takes)
    (h : ∀ number, (round number).Ends fun found => ∀ a ∈ found, value a) : (untilSome round takes).Ends value := by
  intro source
  rw [Sampler.untilSome, runOn_ofRun]
  generalize 1 = number
  induction number, source using untilSomeFrom.induct round takes with
  | case1 number source failure rest hrun =>
    have hround := h number source
    rw [hrun] at hround
    rw [untilSomeFrom_eq, hrun]
    cases hround with
    | starved => exact .starved
    | fault cause => exact .fault cause
  | case2 number source a rest hrun =>
    have hround := h number source
    rw [hrun] at hround
    rw [untilSomeFrom_eq, hrun]
    cases hround with
    | value hfound => exact .value (hfound a rfl)
  | case3 number source rest hrun ih =>
    rw [untilSomeFrom_eq, hrun]
    exact ih

end Ends

end Sampler

/-! ## Random primes of any length -/

section

variable {bits residue : Nat}

theorem ends_drawPrime (hbits : 5 ≤ bits) (hresidue : residue < 8) (attempt : Nat) :
    (drawPrime bits residue attempt).Ends fun found => ∀ p ∈ found, IsCandidate bits residue p := by
  refine (Sampler.ends_draw _).bind fun block _ => ?_
  refine (Sampler.ends_outcome (neverRefuses_numberOfBytes block) fun _ _ => trivial).bind fun value _ => ?_
  dsimp only
  split
  · refine (Sampler.ends_record _).bind fun _ _ => Sampler.ends_pure ?_
    rintro p ⟨⟩
    exact isCandidate_primeCandidate hbits hresidue _
  · exact Sampler.ends_pure fun p hp => nomatch hp

/-- **A random prime of any length is a candidate**, as long as there is scratch space for one draw. -/
theorem ends_randomPrime (hbits : 8 ≤ bits) (hscratch : bytesForBits bits < scratchLimit) (hresidue : residue < 8)
    (hodd : residue % 2 = 1) : (randomPrime bits residue).Ends fun p => IsCandidate bits residue p := by
  rw [randomPrime, dif_pos ⟨hbits, hresidue, hodd⟩, reserveScratch_of_lt hscratch]
  refine (Sampler.ends_outcome (neverRefuses_ok ()) fun _ _ => trivial).bind fun _ _ => ?_
  exact Sampler.Ends.untilSome _ fun attempt => ends_drawPrime (by omega) hresidue attempt

end

end Paillier
