import Paillier.Number.Capacity

/-!
# When the arithmetic gives up

A refusal is an answer, a fault is none: the request is given up half-way. Whether a computation ends in a fault is
told step by step. What only computes and examines nothing never refuses, so it gives a value or it ends in a fault.

## Main statements

* `Outcome.faults_bind`, `Outcome.faults_ite_refuse` — a fault of a computation is a fault of one of its steps.
* `Outcome.NeverRefuses.faults_or_ok` — what never refuses gives a value or ends in a fault.
-/

namespace Paillier

attribute [local instance] natPow

namespace Outcome

variable {α β : Type}

/-! ## Faults -/

/-- The computation was given up. -/
def Faults (outcome : Outcome α) : Prop := ∃ cause, outcome = fault cause

theorem faults_fault (cause : Fault) : (fault cause : Outcome α).Faults := ⟨cause, rfl⟩

@[simp] theorem not_faults_ok (a : α) : ¬ Faults (.ok a) := by
  rintro ⟨_, h⟩
  cases h

@[simp] theorem not_faults_refuse (cause : Error) : ¬ (refuse cause : Outcome α).Faults := by
  rintro ⟨_, h⟩
  cases h

/-- Either the first step is given up, or it gives a value and the rest is given up. -/
theorem faults_bind {x : Outcome α} {f : α → Outcome β} :
    (x >>= f).Faults ↔ x.Faults ∨ ∃ a, x = .ok a ∧ (f a).Faults := by
  cases x with
  | error failure =>
    refine ⟨fun ⟨cause, h⟩ => Or.inl ⟨cause, ?_⟩, ?_⟩
    · cases h
      rfl
    · rintro (⟨cause, h⟩ | ⟨a, h, -⟩)
      · cases h
        exact ⟨cause, rfl⟩
      · cases h
  | ok a =>
    refine ⟨fun h => Or.inr ⟨a, rfl, h⟩, ?_⟩
    rintro (h | ⟨b, hb, h⟩)
    · exact absurd h (not_faults_ok a)
    · cases hb
      exact h

/-- A check comes first: what it turns down is not computed. -/
theorem faults_ite_refuse {c : Prop} [Decidable c] {cause : Error} {x : Outcome α} :
    (if c then refuse cause else x).Faults ↔ ¬ c ∧ x.Faults := by
  by_cases h : c <;> simp [h]

/-! ## Computing without examining -/

/-- The computation turns nothing down. -/
def NeverRefuses (outcome : Outcome α) : Prop := ∀ cause, outcome ≠ refuse cause

theorem neverRefuses_ok (a : α) : NeverRefuses (.ok a) := fun _ => ok_ne_refuse

theorem NeverRefuses.bind {x : Outcome α} {f : α → Outcome β} (hx : x.NeverRefuses)
    (hf : ∀ a, (f a).NeverRefuses) : NeverRefuses (x >>= f) := by
  intro cause h
  cases x with
  | error failure =>
    cases h
    exact hx cause rfl
  | ok a => exact hf a cause h

/-- **What never refuses gives a value or ends in a fault.** -/
theorem NeverRefuses.faults_or_ok {x : Outcome α} (h : x.NeverRefuses) : x.Faults ∨ ∃ a, x = .ok a := by
  rcases x with (cause | cause) | a
  · exact absurd rfl (h cause)
  · exact Or.inl ⟨cause, rfl⟩
  · exact Or.inr ⟨a, rfl⟩

end Outcome

open Outcome

/-! ## Numbers that cannot be held -/

theorem bounded_faults_iff {a : Number} : (bounded a).Faults ↔ 2 ^ capacityBits ≤ a.magnitude := by
  by_cases h : Fits a
  · rw [bounded_eq_ok h]
    exact iff_of_false (not_faults_ok a) (Nat.not_le.mpr (fits_iff.mp h))
  · rw [bounded_eq_fault h]
    rw [fits_iff, Nat.not_lt] at h
    exact iff_of_true (faults_fault _) h

theorem product_faults_iff {a b : Number} :
    (product a b).Faults ↔ 2 ^ capacityBits ≤ a.magnitude * b.magnitude := bounded_faults_iff

theorem numberOfBytes_faults_iff {data : Bytes} : (numberOfBytes data).Faults ↔ 512 < data.length := by
  by_cases h : capacityBytes < data.length
  · rw [numberOfBytes, if_pos h]
    exact iff_of_true (faults_fault _) h
  · rw [numberOfBytes_eq_ok (Nat.not_lt.mp h)]
    exact iff_of_false (not_faults_ok _) h

/-- Reading comes first: what is too long is not computed with. -/
theorem numberOfBytes_bind_faults_iff {α : Type} {data : Bytes} {f : Number → Outcome α} :
    (numberOfBytes data >>= f).Faults ↔ 512 < data.length ∨ (f (.positive (ofBigEndian data))).Faults := by
  by_cases h : capacityBytes < data.length
  · rw [faults_bind, numberOfBytes_faults_iff]
    exact iff_of_true (Or.inl h) (Or.inl h)
  · rw [numberOfBytes_eq_ok (Nat.not_lt.mp h), ok_bind]
    exact ⟨Or.inr, fun hfault => hfault.resolve_left h⟩

theorem neverRefuses_bounded (a : Number) : NeverRefuses (bounded a) := by
  intro cause h
  unfold bounded at h
  split at h <;> cases h

theorem neverRefuses_numberOfBytes (data : Bytes) : NeverRefuses (numberOfBytes data) := by
  intro cause h
  unfold numberOfBytes at h
  split at h <;> cases h

theorem neverRefuses_difference (a b : Number) : NeverRefuses (difference a b) := by
  unfold difference
  split
  · exact neverRefuses_ok a
  · split
    · exact neverRefuses_ok b
    · exact neverRefuses_bounded _

theorem neverRefuses_sum (a b : Number) : NeverRefuses (sum a b) := by
  unfold sum
  split
  · exact neverRefuses_ok a
  · split
    · exact neverRefuses_ok b
    · exact neverRefuses_bounded _

end Paillier
