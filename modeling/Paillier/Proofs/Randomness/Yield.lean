import Paillier.Randomness.Sampling
import Paillier.Proofs.Number.Arithmetic
import Paillier.Proofs.Number.BigEndian

/-!
# What samplers yield

A sampler that only ever fails for want of entropy *yields* values: on every source it either gives one, or it
stops with fewer bytes left than its next draw takes. That holds of every draw, is kept by sequences, and is
kept by the search for a good draw, however long it takes. How much is taken before that it does not say.

## Main statements

* `Yields.bind`, `Yields.untilSome` — the rules.
* `yields_randomBelow` — a random number below `n` is one.
-/

namespace Paillier

namespace Sampler

variable {α β : Type} {count : Nat}

/-- Every run gives a value with this property, unless fewer than `count` bytes of entropy are left. -/
def Yields (sampler : Sampler α) (count : Nat) (value : α → Prop) : Prop :=
  ∀ source, (∃ a rest, sampler.runOn source = (.ok a, rest) ∧ value a) ∨
    ∃ rest, sampler.runOn source = (Paillier.refuse .entropyFailure, rest) ∧ rest.entropy.length < count

theorem yields_pure {a : α} {value : α → Prop} (h : value a) : (pure a : Sampler α).Yields count value :=
  fun source => Or.inl ⟨a, source, rfl, h⟩

theorem yields_record (event : Event) : (record event).Yields count fun _ => True :=
  fun _ => Or.inl ⟨(), _, rfl, trivial⟩

theorem yields_draw (count : Nat) : (draw count).Yields count fun block => block.length = count := by
  intro source
  rw [runOn_draw]
  by_cases h : source.entropy.length < count
  · rw [if_pos h]
    exact Or.inr ⟨source, rfl, h⟩
  · rw [if_neg h]
    exact Or.inl ⟨_, _, rfl, List.length_take_of_le (Nat.not_lt.mp h)⟩

/-- An outcome that is a value is handed on. -/
theorem yields_outcome {outcome : Outcome α} {a : α} {value : α → Prop} (h : outcome = .ok a)
    (ha : value a) : (liftM outcome : Sampler α).Yields count value := by
  intro source
  rw [runOn_outcome, h]
  exact Or.inl ⟨a, source, rfl, ha⟩

namespace Yields

variable {sampler : Sampler α} {value : α → Prop}

theorem of_runOn_eq_ok (h : sampler.Yields count value) {source rest : Source} {a : α}
    (hrun : sampler.runOn source = (.ok a, rest)) : value a := by
  rcases h source with ⟨b, middle, hb, hvalue⟩ | ⟨middle, hb, -⟩
  · rw [hrun] at hb
    cases hb
    exact hvalue
  · rw [hrun] at hb
    cases hb

theorem mono (h : sampler.Yields count value) {other : α → Prop} (himp : ∀ a, value a → other a) :
    sampler.Yields count other := by
  intro source
  rcases h source with ⟨a, rest, ha, hvalue⟩ | hfail
  · exact Or.inl ⟨a, rest, ha, himp a hvalue⟩
  · exact Or.inr hfail

/-- Two steps yield what the second yields for whatever the first one does. -/
theorem bind (h : sampler.Yields count value) {next : α → Sampler β} {result : β → Prop}
    (hnext : ∀ a, value a → (next a).Yields count result) : (sampler >>= next).Yields count result := by
  intro source
  rw [runOn_bind]
  rcases h source with ⟨a, middle, ha, hvalue⟩ | ⟨middle, hfail, hleft⟩
  · rw [ha]
    exact hnext a hvalue middle
  · rw [hfail]
    exact Or.inr ⟨middle, rfl, hleft⟩

/-- A step that is an outcome with a value can be left out. -/
theorem bind_outcome {outcome : Outcome α} {a : α} (h : outcome = .ok a) {next : α → Sampler β}
    {result : β → Prop} (hnext : (next a).Yields count result) :
    ((liftM outcome : Sampler α) >>= next).Yields count result :=
  (yields_outcome h rfl).bind fun _ hb => hb ▸ hnext

/--
**A search yields what its rounds do.** The induction is on the entropy that is left: a round that finds
nothing has taken some, and the search goes on from there.
-/
theorem untilSome {round : Nat → Sampler (Option α)} (takes : ∀ number, (round number).Takes)
    (h : ∀ number, (round number).Yields count fun found => ∀ a ∈ found, value a) :
    (untilSome round takes).Yields count value := by
  intro source
  rw [Sampler.untilSome, runOn_ofRun]
  generalize 1 = number
  induction number, source using untilSomeFrom.induct round takes with
  | case1 number source failure rest hrun =>
    rw [untilSomeFrom_eq, hrun]
    rcases h number source with ⟨a, middle, ha, -⟩ | ⟨middle, hfail, hleft⟩
    · rw [hrun] at ha
      cases ha
    · rw [hrun] at hfail
      cases hfail
      exact Or.inr ⟨rest, rfl, hleft⟩
  | case2 number source a rest hrun =>
    rw [untilSomeFrom_eq, hrun]
    exact Or.inl ⟨a, rest, rfl, (h number).of_runOn_eq_ok hrun a rfl⟩
  | case3 number source rest hrun ih =>
    rw [untilSomeFrom_eq, hrun]
    exact ih

end Yields

end Sampler

/-! ## Random numbers -/

section

variable {n : Nat}

/-- Where so many bytes can be reserved, they can also be counted. -/
theorem reserveScratch_of_lt {bits : Nat} (h : bytesForBits bits < scratchLimit) : reserveScratch bits = .ok () := by
  have hcount : ¬ countLimit ≤ bits + 7 := by
    unfold bytesForBits scratchLimit at h
    unfold countLimit
    omega
  rw [reserveScratch, if_neg hcount, if_neg (Nat.not_le.mpr h)]

/-- For a number that can be held scratch space is never short. -/
theorem reserveScratch_eq_ok {bits : Nat} (h : bits ≤ capacityBits) : reserveScratch bits = .ok () := by
  refine reserveScratch_of_lt (Nat.lt_of_le_of_lt (bytesForBits_le_capacityBytes_iff.mpr h) ?_)
  decide

theorem yields_drawBelow (h : n < 2 ^ capacityBits) :
    (drawBelow (.positive n)).Yields (byteLength n) fun found => ∀ a ∈ found, ∃ k < n, a = .positive k := by
  refine (Sampler.yields_draw _).bind fun block hlen => ?_
  have hshort : block.length ≤ capacityBytes := by
    rw [hlen]
    exact bytesForBits_le_capacityBytes_iff.mpr (bitLength_le_iff.mpr h)
  refine Sampler.Yields.bind_outcome (numberOfBytes_eq_ok hshort) ?_
  dsimp only
  split
  · next hlt =>
    refine Sampler.yields_pure ?_
    rintro a ⟨⟩
    exact ⟨_, of_decide_eq_true hlt, rfl⟩
  · exact (Sampler.yields_record _).bind fun _ _ => Sampler.yields_pure fun a ha => nomatch ha

/-- **A random number below `n` is one, and nothing but the end of the entropy prevents it.** -/
theorem yields_randomBelow (hpos : 0 < n) (h : n < 2 ^ capacityBits) :
    (randomBelow (.positive n)).Yields (byteLength n) fun a => ∃ k < n, a = .positive k := by
  have hbits : 0 < bitLength n := lt_bitLength_iff.mpr hpos
  have hsign : (0 : Number) ≤ .positive n := rfl
  rw [randomBelow, dif_pos ⟨hbits, hsign⟩]
  exact Sampler.Yields.bind_outcome (reserveScratch_eq_ok (bitLength_le_iff.mpr h))
    (Sampler.Yields.untilSome _ fun _ => yields_drawBelow h)

end

end Paillier
