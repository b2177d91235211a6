import Mathlib.Data.Set.Function
import Paillier.Proofs.Randomness.Unit

/-!
# Which values a sampler can give

A property of all values that a sampler gives says nothing about which of them it gives. For nonces both is known:
whatever comes out is a unit in `[1, N)`, and as each of these units comes out of as many streams, each comes out of some.

## Main statements

* `Sampler.Uniform.outputs_eq` — a uniform sampler gives all its values.
* `Sampler.outputs_bind_outcome` — what only computes passes the values on.
* `PublicKey.Sound.outputs_randomNonce` — the nonces that can be drawn.
* `PublicKey.Sound.outputs_encrypt` — and the ciphertexts that are made with them.
-/

namespace Paillier

open Number (positive)
open Residuosity

namespace Sampler

variable {α β : Type}

/-- The values that come out for some source. -/
def outputs (sampler : Sampler α) : Set α := {a | ∃ source rest, sampler.runOn source = (.ok a, rest)}

/-- **A uniform sampler gives all its values**, each of them from a stream of one block. -/
theorem Uniform.outputs_eq {sampler : Sampler α} {width : Nat} {values : Set α} (h : sampler.Uniform width values) :
    sampler.outputs = values := by
  ext a
  constructor
  · rintro ⟨source, rest, hrun⟩
    exact h.mem source a (congrArg Prod.fst hrun)
  · intro ha
    obtain ⟨entropy, -, hrun⟩ := byteCount_pos_iff.mp (h.possible 1 Nat.one_pos a ha)
    exact ⟨⟨entropy, []⟩, _, Prod.ext hrun rfl⟩

/-- A step that has its value can be left out. -/
theorem liftM_ok_bind (a : α) (next : α → Sampler β) :
    ((liftM (Except.ok a : Outcome α) : Sampler α) >>= next) = next a := rfl

/-- Steps that only compute can be put together. -/
theorem liftM_bind (outcome : Outcome α) (next : α → Outcome β) :
    (liftM (outcome >>= next) : Sampler β) = (liftM outcome : Sampler α) >>= fun a => liftM (next a) := by
  cases outcome <;> rfl

theorem mem_outputs_outcome {outcome : Outcome α} {a : α} :
    a ∈ (liftM outcome : Sampler α).outputs ↔ outcome = .ok a := by
  constructor
  · rintro ⟨source, rest, hrun⟩
    rw [runOn_outcome] at hrun
    exact (Prod.mk.inj hrun).1
  · rintro rfl
    exact ⟨⟨[], []⟩, _, rfl⟩

/-- What two steps give is given by the second for a value of the first. -/
theorem exists_of_mem_outputs_bind {sampler : Sampler α} {next : α → Sampler β} {b : β}
    (h : b ∈ (sampler >>= next).outputs) : ∃ a ∈ sampler.outputs, b ∈ (next a).outputs := by
  obtain ⟨source, rest, hrun⟩ := h
  obtain ⟨a, middle, ha, hb⟩ := runOn_bind_eq_ok.mp hrun
  exact ⟨a, ⟨source, middle, ha⟩, ⟨middle, rest, hb⟩⟩

/-- **What only computes passes the values on**, as far as it has a value for them. -/
theorem outputs_bind_outcome (sampler : Sampler α) (f : α → Outcome β) :
    (sampler >>= fun a => (liftM (f a) : Sampler β)).outputs = {b | ∃ a ∈ sampler.outputs, f a = .ok b} := by
  ext b
  constructor
  · intro hb
    obtain ⟨a, ha, hb⟩ := exists_of_mem_outputs_bind hb
    exact ⟨a, ha, mem_outputs_outcome.mp hb⟩
  · rintro ⟨a, ⟨source, rest, ha⟩, hb⟩
    refine ⟨source, rest, runOn_bind_eq_ok.mpr ⟨a, rest, ha, ?_⟩⟩
    rw [runOn_outcome, hb]

theorem outputs_bind_pure (sampler : Sampler α) (f : α → β) :
    (sampler >>= fun a => (pure (f a) : Sampler β)).outputs = f '' sampler.outputs := by
  refine (outputs_bind_outcome sampler fun a => .ok (f a)).trans ?_
  simp only [Except.ok.injEq]
  rfl

/-- A search ends with a first round that finds something. -/
theorem runOn_untilSome_of_some {round : Nat → Sampler (Option α)} (takes : ∀ number, (round number).Takes)
    {source rest : Source} {a : α} (h : (round 1).runOn source = (.ok (some a), rest)) :
    (untilSome round takes).runOn source = (.ok a, rest) := by
  rw [untilSome, runOn_ofRun, untilSomeFrom_eq, h]

end Sampler

/-! ## Nonces -/

namespace PublicKey

/-- The units in `[1, N)`. -/
def nonces (pk : PublicKey) : Set Nat := {j | (1 ≤ j ∧ j < pk.n) ∧ j.Coprime pk.n}

variable {pk : PublicKey} {j : Nat}

/-- **The nonces that can be drawn are the units in `[1, N)`.** -/
theorem Sound.outputs_randomNonce (h : pk.Sound) :
    pk.randomNonce.outputs = (fun j : Nat => (j : Number)) '' pk.nonces := by
  have hpositive : (fun j : Nat => (j : Number)) '' pk.nonces = positive '' pk.nonces :=
    Set.image_congr fun j hj => Number.ofNat_of_pos hj.1.1
  rw [hpositive]
  exact h.uniform_randomNonce.outputs_eq

/-- **The ciphertexts that can come out of an encryption are those with these nonces.** -/
theorem Sound.outputs_encrypt (h : pk.Sound) {m : Number} {k : Nat} (hm : m.Denotes k) (hk : k < pk.n) :
    (pk.encrypt m).outputs = (fun j => (encryption pk.n k j : Number)) '' pk.nonces := by
  have hcheck := h.checkPlaintext_eq_ok hm hk
  have hencrypt : pk.encrypt m = (do let r ← pk.randomNonce; pk.encryptUnchecked m r) := by
    simp only [encrypt, encryptKeepingNonce, hcheck, Sampler.liftM_ok_bind, bind_assoc, pure_bind, bind_pure]
  have hvalue : ∀ j : Nat, pk.encryptUnchecked m j = .ok (encryption pk.n k j : Nat) := by
    intro j
    rw [h.encryptUnchecked_eq hm.sign_ne_minus (ofNat_sign_ne_minus j), hm.magnitude_natCast, Number.magnitude_ofNat]
  rw [hencrypt, Sampler.outputs_bind_outcome, h.outputs_randomNonce]
  ext c
  constructor
  · rintro ⟨_, ⟨j, hj, rfl⟩, hc⟩
    exact ⟨j, hj, Except.ok.inj ((hvalue j).symm.trans hc)⟩
  · rintro ⟨j, hj, rfl⟩
    exact ⟨_, ⟨j, hj, rfl⟩, hvalue j⟩

end PublicKey

end Paillier
