import Paillier.Proofs.Randomness.Yield

/-!
# What samplers spend

What entropy is enough for a search depends on its bytes, so no number of them is a price. But the price of a computation
can be named by a simpler one: a sampler *spends* a price if it has a value on every source that pays the price, and
leaves the same of it. Where the price cannot be paid, it fails as paying does. So a sampler that spends its price never
fails for a reason of its own.

## Main statements

* `Spends.bind` — steps spend one price after the other.
* `Spends.yields` — where only the end of the entropy prevents paying, only that prevents a value.
-/

namespace Paillier.Sampler

variable {α β : Type} {price : Sampler Unit}

/--
Every run goes like the one of the price: if the price is paid, the sampler gives a value with this property and leaves
the same of the source; if not, it fails in the same way.
-/
def Spends (sampler : Sampler α) (price : Sampler Unit) (value : α → Prop) : Prop :=
  ∀ source, match price.runOn source with
    | (.ok (), rest) => ∃ a, sampler.runOn source = (.ok a, rest) ∧ value a
    | (.error failure, rest) => sampler.runOn source = (.error failure, rest)

/-- A value costs nothing. -/
theorem spends_pure {a : α} {value : α → Prop} (h : value a) : (pure a : Sampler α).Spends (pure ()) value :=
  fun source => ⟨a, runOn_pure a source, h⟩

/-- And neither does an outcome that is one. -/
theorem spends_outcome {outcome : Outcome α} {a : α} {value : α → Prop} (h : outcome = .ok a) (ha : value a) :
    (liftM outcome : Sampler α).Spends (pure ()) value := by
  rw [h]
  exact spends_pure ha

/-- What a sampler costs is that it runs. -/
theorem spends_self {sampler : Sampler α} {value : α → Prop}
    (h : ∀ source a rest, sampler.runOn source = (.ok a, rest) → value a) :
    sampler.Spends (do let _ ← sampler; pure ()) value := by
  intro source
  rw [runOn_bind]
  rcases hrun : sampler.runOn source with ⟨failure | a, rest⟩
  · rfl
  · exact ⟨a, rfl, h source a rest hrun⟩

namespace Spends

variable {sampler : Sampler α} {value : α → Prop}

theorem of_runOn_eq_ok (h : sampler.Spends price value) {source rest : Source} {a : α}
    (hrun : sampler.runOn source = (.ok a, rest)) : value a := by
  have hpaid := h source
  split at hpaid
  · obtain ⟨b, hb, hvalue⟩ := hpaid
    rw [hrun] at hb
    cases hb
    exact hvalue
  · rw [hrun] at hpaid
    cases hpaid

theorem mono (h : sampler.Spends price value) {other : α → Prop} (himp : ∀ a, value a → other a) :
    sampler.Spends price other := by
  intro source
  have hpaid := h source
  split at hpaid
  · obtain ⟨a, ha, hvalue⟩ := hpaid
    exact ⟨a, ha, himp a hvalue⟩
  · exact hpaid

/-- **Steps spend one price after the other.** -/
theorem bind (h : sampler.Spends price value) {next : α → Sampler β} {rest : Sampler Unit} {result : β → Prop}
    (hnext : ∀ a, value a → (next a).Spends rest result) :
    (sampler >>= next).Spends (do price; rest) result := by
  intro source
  have hpaid := h source
  rw [runOn_bind, runOn_bind]
  split at hpaid
  · next middle hprice =>
    obtain ⟨a, ha, hvalue⟩ := hpaid
    rw [hprice, ha]
    exact hnext a hvalue middle
  · next failure middle hprice =>
    rw [hprice, hpaid]

/-- A step that is an outcome with a value costs nothing. -/
theorem bind_outcome {outcome : Outcome α} {a : α} (h : outcome = .ok a) {next : α → Sampler β}
    {result : β → Prop} (hnext : (next a).Spends price result) :
    ((liftM outcome : Sampler α) >>= next).Spends price result := by
  rw [h]
  exact hnext

/-- Steps after the last draw cost nothing. -/
theorem bind_free (h : sampler.Spends price value) {next : α → Sampler β} {result : β → Prop}
    (hnext : ∀ a, value a → (next a).Spends (pure ()) result) : (sampler >>= next).Spends price result := by
  have hsteps := h.bind hnext
  rwa [show (do price; pure ()) = price from bind_pure price] at hsteps

/-- **Where only the end of the entropy prevents paying, only that prevents a value.** -/
theorem yields (h : sampler.Spends price value) {count : Nat} (hprice : price.Yields count fun _ => True) :
    sampler.Yields count value := by
  intro source
  have hpaid := h source
  rcases hprice source with ⟨_, rest, hrun, -⟩ | ⟨rest, hrun, hleft⟩
  · rw [hrun] at hpaid
    obtain ⟨a, ha, hvalue⟩ := hpaid
    exact Or.inl ⟨a, rest, ha, hvalue⟩
  · rw [hrun] at hpaid
    exact Or.inr ⟨rest, hpaid, hleft⟩

end Spends

end Paillier.Sampler
