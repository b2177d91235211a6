import Paillier.Proofs.Fault
import Paillier.Proofs.Randomness.Yield

/-!
# Answers

A request is answered if it ends in a value or is refused; one that is given up is not. Unlike yielding, being answered
says nothing about the reason of a refusal, so it is kept by every check. What a value is worth is told with it: later
steps need to know how large the numbers are that they get.

## Main statements

* `Outcome.Answered.bind`, `Outcome.Answered.ite_refuse` — the rules for steps and checks.
* `Sampler.Answers.bind`, `Sampler.Yields.answers` — the rules for steps that may draw entropy.
-/

namespace Paillier

/-! ## Outcomes -/

/-- A value with this property, or a refusal. -/
inductive Outcome.Answered {α : Type} (value : α → Prop) : Outcome α → Prop
  | value {a : α} (h : value a) : Answered value (.ok a)
  | refused (cause : Error) : Answered value (refuse cause)

namespace Outcome.Answered

variable {α β : Type} {x : Outcome α} {value : α → Prop}

theorem of_eq_ok {a : α} (h : x = .ok a) (ha : value a) : Answered value x := h ▸ .value ha

/-- **What is answered is not given up.** -/
theorem not_faults (h : Answered value x) : ¬ x.Faults := by
  cases h with
  | value _ => exact not_faults_ok _
  | refused cause => exact not_faults_refuse cause

theorem mono (h : Answered value x) {other : α → Prop} (himp : ∀ a, value a → other a) : Answered other x := by
  cases h with
  | value ha => exact .value (himp _ ha)
  | refused cause => exact .refused cause

/-- **Two steps are answered if the second is, for whatever value the first one gives.** -/
theorem bind (h : Answered value x) {f : α → Outcome β} {result : β → Prop}
    (hf : ∀ a, value a → Answered result (f a)) : Answered result (x >>= f) := by
  cases h with
  | value ha => exact hf _ ha
  | refused cause => exact .refused cause

/-- A check refuses, or the rest has to be answered. -/
theorem ite_refuse {c : Prop} [Decidable c] {cause : Error} (h : ¬ c → Answered value x) :
    Answered value (if c then refuse cause else x) := by
  by_cases hc : c
  · rw [if_pos hc]
    exact .refused cause
  · rw [if_neg hc]
    exact h hc

/-- A check with nothing behind it is answered. -/
theorem check (c : Prop) [Decidable c] (cause : Error) :
    Answered (fun _ => c) (if c then .ok () else refuse cause) := by
  by_cases hc : c
  · rw [if_pos hc]
    exact .value hc
  · rw [if_neg hc]
    exact .refused cause

end Outcome.Answered

/-! ## Samplers -/

namespace Sampler

open Outcome (Answered)

variable {α β : Type}

/-- The request is answered, whatever the source hands out. -/
def Answers (sampler : Sampler α) (value : α → Prop) : Prop := ∀ source, Answered value (sampler.runOn source).1

/-- What only fails for want of entropy is answered. -/
theorem Yields.answers {sampler : Sampler α} {count : Nat} {value : α → Prop} (h : sampler.Yields count value) :
    sampler.Answers value := by
  intro source
  rcases h source with ⟨a, rest, hrun, ha⟩ | ⟨rest, hrun, -⟩
  · rw [hrun]
    exact .value ha
  · rw [hrun]
    exact .refused _

theorem answers_pure {a : α} {value : α → Prop} (h : value a) : (pure a : Sampler α).Answers value :=
  fun _ => .value h

theorem answers_outcome {outcome : Outcome α} {value : α → Prop} (h : Answered value outcome) :
    (liftM outcome : Sampler α).Answers value := fun _ => h

namespace Answers

variable {sampler : Sampler α} {value : α → Prop}

theorem bind (h : sampler.Answers value) {next : α → Sampler β} {result : β → Prop}
    (hnext : ∀ a, value a → (next a).Answers result) : (sampler >>= next).Answers result := by
  intro source
  have hfirst := h source
  rw [runOn_bind]
  rcases hrun : sampler.runOn source with ⟨outcome, rest⟩
  rw [hrun] at hfirst
  cases hfirst with
  | value ha => exact hnext _ ha rest
  | refused cause => exact .refused cause

end Answers

end Sampler

end Paillier
