import Paillier.Proofs.Randomness.Block

/-!
# Searches as filters

What a search does to a source is told by the blocks that are accepted, and by nothing else: it gives the first of them
and fails if there is none. That is a complete description, so it holds in both directions.

A search whose rounds are themselves searches is such a filter as well. Both loops take from the same source, and what
the inner one has left is where the outer one goes on. So nothing is lost between the rounds, and the two may be taken
for one search whose rounds apply both conditions.

## Main statements

* `Sampler.TriesBlocks.findsFirst` — a search over blocks is a filter.
* `Sampler.untilSome_untilSome` — a search whose rounds are searches is one search.
-/

namespace Paillier

namespace Sampler

variable {α β : Type}

/--
The sampler gives what the first accepted block of the source is accepted as, and has taken the blocks up to it. It
fails exactly where no complete block is accepted, for want of entropy, and has taken all of them.
-/
structure FindsFirst (sampler : Sampler α) (width : Nat) (accept : Bytes → Option α) (hit : Nat → List Event)
    (miss : Bytes → List Event) (source : Source) : Prop where
  eq_ok_iff : ∀ a rest, sampler.runOn source = (.ok a, rest) ↔
    ∃ i, FirstAccepted width accept source.entropy i a ∧
      rest = ⟨source.entropy.drop (width * (i + 1)),
        hit (i + 1) ++ (missed width miss source.entropy i ++ source.events)⟩
  eq_error_iff : ∀ failure rest, sampler.runOn source = (.error failure, rest) ↔
    NoneAccepted width accept source.entropy ∧ failure = .refused .entropyFailure ∧
      rest = ⟨leftover width source.entropy,
        missed width miss source.entropy (source.entropy.length / width) ++ source.events⟩

section

variable {sampler : Sampler α} {width : Nat} {accept : Bytes → Option α} {hit : Nat → List Event}
  {miss : Bytes → List Event} {source : Source} {a : α}

/-- The value alone, without what is left. -/
theorem FindsFirst.exists_first_iff (h : sampler.FindsFirst width accept hit miss source) :
    (sampler.runOn source).1 = .ok a ↔ ∃ i, FirstAccepted width accept source.entropy i a := by
  constructor
  · intro hvalue
    obtain ⟨i, hfirst, -⟩ := (h.eq_ok_iff a (sampler.runOn source).2).mp (Prod.ext hvalue rfl)
    exact ⟨i, hfirst⟩
  · rintro ⟨i, hfirst⟩
    rw [(h.eq_ok_iff a _).mpr ⟨i, hfirst, rfl⟩]

/-- A filter fails for want of entropy only. -/
theorem FindsFirst.failure_eq (h : sampler.FindsFirst width accept hit miss source) {failure : Failure}
    (hrun : (sampler.runOn source).1 = .error failure) : failure = .refused .entropyFailure :=
  ((h.eq_error_iff failure (sampler.runOn source).2).mp (Prod.ext hrun rfl)).2.1

/-- Blocks that are accepted alike are searched alike. -/
theorem FindsFirst.congr (h : sampler.FindsFirst width accept hit miss source) {other : Bytes → Option α}
    (hsame : ∀ i, width * (i + 1) ≤ source.entropy.length →
      accept (blockAt width source.entropy i) = other (blockAt width source.entropy i)) :
    sampler.FindsFirst width other hit miss source := by
  have hfirst : ∀ i a, FirstAccepted width other source.entropy i a ↔ FirstAccepted width accept source.entropy i a := by
    intro i a
    have hearlier : ∀ j < i, width * (i + 1) ≤ source.entropy.length → width * (j + 1) ≤ source.entropy.length :=
      fun j hj hcomplete => Nat.le_trans (Nat.mul_le_mul_left width (by omega)) hcomplete
    constructor
    · rintro ⟨hcomplete, haccepted, hnone⟩
      exact ⟨hcomplete, (hsame i hcomplete).trans haccepted, fun j hj =>
        (hsame j (hearlier j hj hcomplete)).trans (hnone j hj)⟩
    · rintro ⟨hcomplete, haccepted, hnone⟩
      exact ⟨hcomplete, (hsame i hcomplete).symm.trans haccepted, fun j hj =>
        (hsame j (hearlier j hj hcomplete)).symm.trans (hnone j hj)⟩
  have hnone : NoneAccepted width other source.entropy ↔ NoneAccepted width accept source.entropy :=
    forall_congr' fun i => forall_congr' fun hcomplete => by rw [hsame i hcomplete]
  constructor
  · intro a rest
    simp only [h.eq_ok_iff, hfirst]
  · intro failure rest
    rw [h.eq_error_iff, hnone]

/-- **A search over blocks is a filter.** For every source there is a first block or none, so the two ways in which it
can end exclude each other. -/
theorem TriesBlocks.findsFirst {round : Nat → Sampler (Option α)} (h : TriesBlocks round width accept hit miss)
    (takes : ∀ number, (round number).Takes) (hwidth : 0 < width) (source : Source) :
    (untilSome round takes).FindsFirst width accept hit miss source := by
  have hfound := fun i a (hfirst : FirstAccepted width accept source.entropy i a) =>
    h.runOn_untilSome_of_first takes hfirst
  have hstarved := fun hnone : NoneAccepted width accept source.entropy =>
    h.runOn_untilSome_of_none takes hwidth hnone
  constructor
  · intro a rest
    constructor
    · intro hrun
      rcases exists_firstAccepted_or_noneAccepted width accept source.entropy with ⟨i, b, hfirst⟩ | hnone
      · rw [hfound i b hfirst] at hrun
        cases hrun
        exact ⟨i, hfirst, rfl⟩
      · rw [hstarved hnone] at hrun
        cases hrun
    · rintro ⟨i, hfirst, rfl⟩
      exact hfound i a hfirst
  · intro failure rest
    constructor
    · intro hrun
      rcases exists_firstAccepted_or_noneAccepted width accept source.entropy with ⟨i, b, hfirst⟩ | hnone
      · rw [hfound i b hfirst] at hrun
        cases hrun
      · rw [hstarved hnone] at hrun
        cases hrun
        exact ⟨hnone, rfl, rfl⟩
    · rintro ⟨hnone, rfl, rfl⟩
      exact hstarved hnone

end

/-! ## Searches in rounds of a search -/

/-- Rounds that do not look at their number may be counted from anywhere. -/
theorem untilSomeFrom_number {round : Sampler (Option α)} (takes : Nat → round.Takes) (number other : Nat)
    (source : Source) :
    untilSomeFrom (fun _ => round) takes number source = untilSomeFrom (fun _ => round) takes other source := by
  induction number, source using untilSomeFrom.induct (fun _ => round) takes generalizing other with
  | case1 number source failure rest h =>
    rw [untilSomeFrom_eq, untilSomeFrom_eq _ _ other, h]
  | case2 number source a rest h =>
    rw [untilSomeFrom_eq, untilSomeFrom_eq _ _ other, h]
  | case3 number source rest h ih =>
    rw [untilSomeFrom_eq, untilSomeFrom_eq _ _ other, h]
    exact ih (other + 1)

theorem untilSome_congr {round other : Nat → Sampler (Option α)} (takes : ∀ number, (round number).Takes)
    (h : ∀ number, round number = other number) :
    untilSome round takes = untilSome other fun number => h number ▸ takes number := by
  obtain rfl : round = other := funext h
  rfl

/-- One round for two conditions: what the first one finds is checked by the second one at once. -/
def checking (round : Sampler (Option α)) (check : α → Sampler (Option β)) : Sampler (Option β) :=
  round >>= fun found => found.elim (pure none) check

theorem takes_checking {round : Sampler (Option α)} {check : α → Sampler (Option β)} (h : round.Takes)
    (hcheck : ∀ a, (check a).Keeps) : (checking round check).Takes := by
  refine takes_bind h fun found => ?_
  cases found with
  | none => exact keeps_pure none
  | some a => exact hcheck a

/-- The check is done where the round has ended. -/
theorem runOn_checking (round : Sampler (Option α)) (check : α → Sampler (Option β)) (source : Source) :
    (checking round check).runOn source =
      match round.runOn source with
      | (.error failure, rest) => (.error failure, rest)
      | (.ok none, rest) => (.ok none, rest)
      | (.ok (some a), rest) => (check a).runOn rest := by
  rw [checking, runOn_bind]
  rcases round.runOn source with ⟨failure | _ | a, rest⟩ <;> rfl

/-- After a search the check is done where the search has ended, so a round in vain only takes from the source. -/
theorem runOn_untilSome_bind {round : Sampler (Option α)} (takes : Nat → round.Takes)
    (check : α → Sampler (Option β)) (source : Source) :
    (untilSome (fun _ => round) takes >>= check).runOn source =
      match round.runOn source with
      | (.ok none, rest) => (untilSome (fun _ => round) takes >>= check).runOn rest
      | _ => (checking round check).runOn source := by
  rw [runOn_checking, runOn_bind, untilSome, runOn_ofRun, untilSomeFrom_eq]
  rcases round.runOn source with ⟨failure | _ | a, rest⟩
  · rfl
  · dsimp only
    rw [untilSomeFrom_number takes _ 1, runOn_bind, runOn_ofRun]
  · rfl

/--
**A search whose rounds are searches is one search**, which applies both conditions in each round.

The induction is on the entropy that is left: a round of the one search is a round of the inner loop, and whether the
outer loop turns with it makes no difference to what comes next.
-/
theorem untilSome_untilSome {round : Sampler (Option α)} {check : α → Sampler (Option β)} (takes : Nat → round.Takes)
    (outer : Nat → (untilSome (fun _ => round) takes >>= check).Takes) (once : Nat → (checking round check).Takes) :
    untilSome (fun _ => untilSome (fun _ => round) takes >>= check) outer =
      untilSome (fun _ => checking round check) once := by
  have hsame : ∀ left source, source.entropy.length = left → ∀ number,
      untilSomeFrom (fun _ => untilSome (fun _ => round) takes >>= check) outer 1 source =
        untilSomeFrom (fun _ => checking round check) once number source := by
    intro left
    induction left using Nat.strongRecOn with
    | ind left ih =>
      rintro source rfl number
      have hround := runOn_untilSome_bind takes check source
      rw [untilSomeFrom_eq, untilSomeFrom_eq _ once number]
      split at hround
      · -- only the inner loop turns
        next rest hrun =>
        rw [hround, runOn_checking, hrun, ← untilSomeFrom_eq _ outer 1]
        exact ih _ (takes 0 source none rest hrun) rest rfl _
      · rw [hround]
        rcases hcheck : (checking round check).runOn source with ⟨failure | _ | b, rest⟩
        · rfl
        · -- both loops turn
          dsimp only
          rw [untilSomeFrom_number outer _ 1]
          exact ih _ (once 0 source none rest hcheck) rest rfl _
        · rfl
  exact congrArg ofRun (funext fun source => hsame _ source rfl 1)

/--
Blocks that are checked after they have been accepted. What is recorded in vain tells which of the two conditions has
failed.
-/
theorem TriesBlocks.checking {round : Sampler (Option α)} {check : α → Sampler (Option β)} {width : Nat}
    {accept : Bytes → Option α} {miss : Bytes → List Event}
    (h : TriesBlocks (fun _ => round) width accept (fun _ => []) miss) (keep : α → Option β) (reject : List Event)
    (hkeep : ∀ a b source, keep a = some b → (check a).runOn source = (.ok (some b), source))
    (hreject : ∀ a source, keep a = none →
      (check a).runOn source = (.ok none, { source with events := reject ++ source.events })) :
    TriesBlocks (fun _ => Sampler.checking round check) width (fun block => (accept block).bind keep) (fun _ => [])
      (fun block => if (accept block).isSome then reject else miss block) where
  starves number source hshort := by
    rw [runOn_checking, h.starves number source hshort]
    rfl
  accepts number source b henough hb := by
    obtain ⟨a, ha, hb⟩ := Option.bind_eq_some_iff.mp hb
    rw [runOn_checking, h.accepts number source a henough ha]
    exact hkeep a b _ hb
  rejects number source henough hnone := by
    rw [runOn_checking]
    cases ha : accept (source.entropy.take width) with
    | none =>
      rw [h.rejects number source henough ha]
      rfl
    | some a =>
      rw [ha] at hnone
      rw [h.accepts number source a henough ha]
      exact hreject a _ hnone

end Sampler

end Paillier
