import Paillier.Event
import Paillier.Number.BigEndian

/-!
# Drawing entropy

A `Source` is the string of bytes an entropy source will hand out, together with the log so far. A
`Sampler` is a computation that takes bytes from the front of it and records events. A sampler that fails
leaves the source as it stood when it failed: what was taken stays taken, what was recorded stays
recorded.

Random numbers are found by drawing again until a draw is good (`Sampler.untilSome`). The source ends,
so the search does.

## Main statements

* `runOn_bind`, `runOn_draw` — what the steps do to a source.
* `untilSomeFrom_eq` — a search is its first round, and the search from there if the round found nothing.
* `takes_untilSome` — a search whose rounds take entropy takes some itself.

## Termination

`untilSome` wants rounds that take at least one byte (`Sampler.Takes`), so the entropy left is its measure.
-/

namespace Paillier

/-- The entropy that is left, and the events so far, newest first. -/
structure Source where
  entropy : Bytes
  events : List Event := []
deriving DecidableEq, Repr

/-- The events so far, oldest first. -/
def Source.log (source : Source) : List Event := source.events.reverse

/-- A computation that draws entropy, records events and may fail. -/
abbrev Sampler := ExceptT Failure (StateM Source)

namespace Sampler

variable {α β : Type}

/-- Runs the computation. -/
def runOn (sampler : Sampler α) (source : Source) : Outcome α × Source :=
  (ExceptT.run sampler).run source

/-- The computation that does as the function says. -/
def ofRun (run : Source → Outcome α × Source) : Sampler α := ExceptT.mk fun source => run source

/-- Turns the request down. -/
def refuse (cause : Error) : Sampler α := throw (.refused cause)

/-- Records an event. -/
def record (event : Event) : Sampler Unit :=
  modify fun source => { source with events := event :: source.events }

/-- Takes the next `count` bytes, or none of them if fewer are left. -/
def draw (count : Nat) : Sampler Bytes := do
  let source ← get
  let block := source.entropy.take count
  if block.length < count then refuse .entropyFailure
  else
    set { source with entropy := source.entropy.drop count }
    return block

/-! ## What the steps do to a source -/

@[simp] theorem runOn_pure (a : α) (source : Source) :
    runOn (pure a : Sampler α) source = (.ok a, source) := rfl

@[simp] theorem runOn_throw (failure : Failure) (source : Source) :
    runOn (throw failure : Sampler α) source = (.error failure, source) := rfl

@[simp] theorem runOn_refuse (cause : Error) (source : Source) :
    runOn (refuse cause : Sampler α) source = (Paillier.refuse cause, source) := rfl

@[simp] theorem runOn_outcome (outcome : Outcome α) (source : Source) :
    runOn (liftM outcome : Sampler α) source = (outcome, source) := rfl

@[simp] theorem runOn_ofRun (run : Source → Outcome α × Source) (source : Source) :
    runOn (ofRun run) source = run source := rfl

@[simp] theorem runOn_record (event : Event) (source : Source) :
    runOn (record event) source = (.ok (), { source with events := event :: source.events }) := rfl

/-- A failure ends the computation where it stands; a value goes on to the next step with the source. -/
theorem runOn_bind (sampler : Sampler α) (next : α → Sampler β) (source : Source) :
    runOn (sampler >>= next) source =
      match sampler.runOn source with
      | (.ok a, rest) => (next a).runOn rest
      | (.error failure, rest) => (.error failure, rest) := by
  simp only [runOn, ExceptT.run_bind, StateT.run_bind]
  split <;> next h => rw [h]; rfl

theorem runOn_bind_of_eq_ok {sampler : Sampler α} {source rest : Source} {a : α}
    (h : sampler.runOn source = (.ok a, rest)) (next : α → Sampler β) :
    runOn (sampler >>= next) source = (next a).runOn rest := by
  rw [runOn_bind, h]

theorem runOn_bind_of_eq_error {sampler : Sampler α} {source rest : Source} {failure : Failure}
    (h : sampler.runOn source = (.error failure, rest)) (next : α → Sampler β) :
    runOn (sampler >>= next) source = (.error failure, rest) := by
  rw [runOn_bind, h]

theorem runOn_draw (count : Nat) (source : Source) :
    runOn (draw count) source =
      if source.entropy.length < count then (Paillier.refuse .entropyFailure, source)
      else (.ok (source.entropy.take count), { source with entropy := source.entropy.drop count }) := by
  have hlen : (source.entropy.take count).length < count ↔ source.entropy.length < count := by
    rw [List.length_take]
    omega
  rw [draw, runOn_bind]
  show runOn (if (source.entropy.take count).length < count then _ else _) source = _
  simp only [hlen]
  split <;> rfl

/-! ## Taking entropy -/

/-- A value never comes with more entropy than there was before. -/
def Keeps (sampler : Sampler α) : Prop :=
  ∀ source a rest, sampler.runOn source = (.ok a, rest) → rest.entropy.length ≤ source.entropy.length

/-- A value always costs some entropy. -/
def Takes (sampler : Sampler α) : Prop :=
  ∀ source a rest, sampler.runOn source = (.ok a, rest) → rest.entropy.length < source.entropy.length

theorem keeps_of_takes {sampler : Sampler α} (h : sampler.Takes) : sampler.Keeps :=
  fun source a rest hrun => Nat.le_of_lt (h source a rest hrun)

theorem keeps_pure (a : α) : (pure a : Sampler α).Keeps := by
  intro source b rest h
  cases h
  exact Nat.le_refl _

theorem keeps_outcome (outcome : Outcome α) : (liftM outcome : Sampler α).Keeps := by
  intro source b rest h
  cases h
  exact Nat.le_refl _

theorem keeps_record (event : Event) : (record event).Keeps := by
  intro source b rest h
  cases h
  exact Nat.le_refl _

theorem takes_refuse (cause : Error) : (refuse cause : Sampler α).Takes := by
  intro source b rest h
  cases h

theorem takes_draw {count : Nat} (h : 0 < count) : (draw count).Takes := by
  intro source block rest hrun
  rw [runOn_draw] at hrun
  split at hrun
  · cases hrun
  · next hlen =>
    cases hrun
    show (source.entropy.drop count).length < source.entropy.length
    rw [List.length_drop]
    omega

/-- Two steps give a value iff the first gives one and the second gives one for it. -/
theorem runOn_bind_eq_ok {sampler : Sampler α} {next : α → Sampler β} {source rest : Source} {b : β} :
    runOn (sampler >>= next) source = (.ok b, rest) ↔
      ∃ a middle, sampler.runOn source = (.ok a, middle) ∧ (next a).runOn middle = (.ok b, rest) := by
  rw [runOn_bind]
  constructor
  · intro h
    split at h
    · next a middle ha => exact ⟨a, middle, ha, h⟩
    · cases h
  · rintro ⟨a, middle, ha, hb⟩
    rw [ha]
    exact hb

theorem keeps_bind {sampler : Sampler α} {next : α → Sampler β} (h : sampler.Keeps)
    (hnext : ∀ a, (next a).Keeps) : (sampler >>= next).Keeps := by
  intro source b rest hrun
  obtain ⟨a, middle, ha, hb⟩ := runOn_bind_eq_ok.mp hrun
  exact Nat.le_trans (hnext a middle b rest hb) (h source a middle ha)

/-- If the first step takes entropy and no later one gives any back, the whole takes entropy. -/
theorem takes_bind {sampler : Sampler α} {next : α → Sampler β} (h : sampler.Takes)
    (hnext : ∀ a, (next a).Keeps) : (sampler >>= next).Takes := by
  intro source b rest hrun
  obtain ⟨a, middle, ha, hb⟩ := runOn_bind_eq_ok.mp hrun
  exact Nat.lt_of_le_of_lt (hnext a middle b rest hb) (h source a middle ha)

/-- If the steps after a first one take entropy, the whole does. -/
theorem takes_bind_of_keeps {sampler : Sampler α} {next : α → Sampler β} (h : sampler.Keeps)
    (hnext : ∀ a, (next a).Takes) : (sampler >>= next).Takes := by
  intro source b rest hrun
  obtain ⟨a, middle, ha, hb⟩ := runOn_bind_eq_ok.mp hrun
  exact Nat.lt_of_lt_of_le (hnext a middle b rest hb) (h source a middle ha)

/-! ## Drawing until a draw is good -/

/-- The rounds from `number` on, until one gives a value. Each round takes some entropy. -/
def untilSomeFrom (round : Nat → Sampler (Option α)) (takes : ∀ number, (round number).Takes)
    (number : Nat) (source : Source) : Outcome α × Source :=
  match h : (round number).runOn source with
  | (.error failure, rest) => (.error failure, rest)
  | (.ok (some a), rest) => (.ok a, rest)
  | (.ok none, rest) => untilSomeFrom round takes (number + 1) rest
termination_by source.entropy.length
decreasing_by exact takes number source none rest h

/-- The rounds `1, 2, 3, …`, until one gives a value. Each round takes some entropy. -/
def untilSome (round : Nat → Sampler (Option α)) (takes : ∀ number, (round number).Takes) : Sampler α :=
  ofRun (untilSomeFrom round takes 1)

/-- A search is its first round, and the search from there if the round found nothing. -/
theorem untilSomeFrom_eq (round : Nat → Sampler (Option α)) (takes : ∀ number, (round number).Takes)
    (number : Nat) (source : Source) :
    untilSomeFrom round takes number source =
      match (round number).runOn source with
      | (.error failure, rest) => (.error failure, rest)
      | (.ok (some a), rest) => (.ok a, rest)
      | (.ok none, rest) => untilSomeFrom round takes (number + 1) rest := by
  rw [untilSomeFrom]
  split <;> next h => rw [h]

/-- A search whose rounds take entropy takes some itself. -/
theorem takes_untilSome (round : Nat → Sampler (Option α)) (takes : ∀ number, (round number).Takes) :
    (untilSome round takes).Takes := by
  intro source a rest hrun
  rw [untilSome, runOn_ofRun] at hrun
  generalize 1 = number at hrun
  induction number, source using untilSomeFrom.induct round takes with
  | case1 number source failure middle h =>
    rw [untilSomeFrom_eq, h] at hrun
    cases hrun
  | case2 number source b middle h =>
    rw [untilSomeFrom_eq, h] at hrun
    cases hrun
    exact takes number source _ _ h
  | case3 number source middle h ih =>
    rw [untilSomeFrom_eq, h] at hrun
    exact Nat.lt_trans (ih hrun) (takes number source _ _ h)

end Sampler

end Paillier
