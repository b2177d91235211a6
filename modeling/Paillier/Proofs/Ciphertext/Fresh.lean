import Paillier.Ciphertext.Tracked
import Paillier.Proofs.Ciphertext.Bytes

/-!
# Different ways to the same ciphertext

A ciphertext is computed by a shortcut, but it is the one of the textbook. Whether its nonce is drawn or chosen does not
matter: a nonce that was drawn may be chosen the next time, and gives the same ciphertext again. And an operation with
a scalar is the operation with a fresh encryption of that scalar, although nothing checks the encryption there.

Ranges are those of the numbers themselves, which are ordered like the integers that they are written for.

## Main statements

* `PublicKey.encryptUnchecked_eq_generator_pow` — the shortcut computes a power of the generator `N + 1`.
* `PublicKey.drawn_nonce_reproduces` — the nonce that was kept gives the ciphertext again.
* `PublicKey.scalar_operations_encrypt` — both operations with a scalar encrypt it and go on without it.
-/

namespace Paillier

open Number (positive)
open Residuosity

/-! ## Checks -/

namespace PublicKey

variable {pk : PublicKey} {c k m r : Number}

/-! ## The textbook formula -/

/--
**The shortcut computes the textbook formula**, with the generator `N + 1`.

Nothing is asked of the size of the plaintext or of the nonce, and the nonce does not have to be a unit.
-/
theorem encryptUnchecked_eq_generator_pow {n : Nat} (accepted : ofModulus n = .ok pk) (hm : 0 ≤ m) (hr : 0 ≤ r) :
    pk.encryptUnchecked m r = .ok ((n + 1) ^ m.magnitude * r.magnitude ^ n % n ^ 2 : Nat) := by
  obtain ⟨hsound, rfl⟩ := sound_of_ofModulus accepted
  rw [hsound.encryptUnchecked_eq (Number.sign_ne_minus_of_nonneg hm) (Number.sign_ne_minus_of_nonneg hr),
    encryption_eq_pow]

/-- Modulo a power of three the nonce may be three, which is no unit. -/
theorem encryptUnchecked_eq_generator_pow_three :
    ∃ (n : Nat) (pk : PublicKey), n = 3 ^ 161 ∧ ofModulus n = .ok pk ∧ (0 : Number) ≤ 2 ∧ (0 : Number) ≤ 3 ∧
      pk.encryptUnchecked 2 3 = .ok ((n + 1) ^ 2 * 3 ^ n % n ^ 2 : Nat) := by
  -- the modulus stays a name, so no power to it is ever computed
  obtain ⟨n, hn⟩ : ∃ n, n = 3 ^ 161 := ⟨_, rfl⟩
  have hkey : ofModulus n = .ok ⟨n⟩ := by
    rw [hn]
    exact ofModulus_powerOfThree
  have hvalue := encryptUnchecked_eq_generator_pow (m := 2) (r := 3) hkey (by decide) (by decide)
  rw [Number.magnitude_literal, Number.magnitude_literal] at hvalue
  exact ⟨n, ⟨n⟩, hn, hkey, by decide, by decide, hvalue⟩

/-! ## Drawn nonces -/

/-- Without the nonce the run is the same, and so is what it leaves. -/
theorem runOn_encrypt (pk : PublicKey) (m : Number) (source : Source) :
    (pk.encrypt m).runOn source =
      (((pk.encryptKeepingNonce m).runOn source).1.map Prod.fst, ((pk.encryptKeepingNonce m).runOn source).2) := by
  rw [encrypt, Sampler.runOn_bind]
  rcases (pk.encryptKeepingNonce m).runOn source with ⟨_ | ⟨c, r⟩, rest⟩ <;> rfl

/-- A plaintext out of range costs no entropy. -/
theorem runOn_encryptKeepingNonce_of_refuse {cause : Error} (hm : pk.checkPlaintext m = refuse cause)
    (source : Source) : (pk.encryptKeepingNonce m).runOn source = (refuse cause, source) := by
  rw [encryptKeepingNonce, hm]
  rfl

/-- The source ends before a nonce is found, and `rest` is left of it, whether the nonce is kept or not. -/
structure Starves (pk : PublicKey) (m : Number) (source rest : Source) : Prop where
  keeping : (pk.encryptKeepingNonce m).runOn source = (refuse .entropyFailure, rest)
  dropping : (pk.encrypt m).runOn source = (refuse .entropyFailure, rest)
  short : rest.entropy.length < pk.plaintextLength

/--
The ciphertext `c` comes out of the source together with the nonce `r`, which is a unit in `[1, N)` and gives `c` again
when it is chosen; `rest` is left of the source, also if the nonce is not kept.
-/
structure Draws (pk : PublicKey) (m c r : Number) (source rest : Source) : Prop where
  keeping : (pk.encryptKeepingNonce m).runOn source = (.ok (c, r), rest)
  dropping : (pk.encrypt m).runOn source = (.ok c, rest)
  unit : ∃ j ∈ pk.nonces, r = (j : Number)
  check : pk.checkNonce r = .ok ()
  again : pk.encryptWithNonce m r = .ok c

namespace Sound

/-- **Encryption with a drawn nonce ends without entropy, or with a nonce that could have been chosen.** -/
theorem starves_or_draws (h : pk.Sound) (hm : pk.checkPlaintext m = .ok ()) (source : Source) :
    (∃ rest, pk.Starves m source rest) ∨ ∃ c r rest, pk.Draws m c r source rest := by
  have hpair : pk.encryptKeepingNonce m =
      (do let r ← pk.randomNonce; let c ← (liftM (pk.encryptUnchecked m r) : Sampler Number); return (c, r)) := by
    rw [encryptKeepingNonce, hm, Sampler.liftM_ok_bind]
  rcases h.yields_randomNonce source with ⟨r, rest, hrun, j, hr⟩ | ⟨rest, hrun, hshort⟩
  · obtain ⟨c, hc, -⟩ := h.encryptUnchecked_delivers hm hr
    have hkeeping : (pk.encryptKeepingNonce m).runOn source = (.ok (c, r), rest) := by
      rw [hpair, Sampler.runOn_bind_of_eq_ok hrun, hc, Sampler.liftM_ok_bind, Sampler.runOn_pure]
    refine Or.inr ⟨c, r, rest, hkeeping, ?_, ⟨j, ⟨⟨hr.one_le, hr.lt⟩, hr.coprime⟩, ?_⟩, hr.check_eq_ok h, ?_⟩
    · rw [runOn_encrypt, hkeeping]
      rfl
    · rw [hr.denotes.eq_positive hr.one_le, ← Number.ofNat_of_pos hr.one_le]
    · rw [encryptWithNonce, hm, ok_bind, hr.check_eq_ok h, ok_bind, hc]
  · have hkeeping : (pk.encryptKeepingNonce m).runOn source = (refuse .entropyFailure, rest) := by
      rw [hpair]
      exact Sampler.runOn_bind_of_eq_error hrun _
    refine Or.inl ⟨rest, hkeeping, ?_, hshort⟩
    rw [runOn_encrypt, hkeeping]
    rfl

/-- Whatever is encrypted keeping the nonce was drawn. -/
theorem draws_of_encryptKeepingNonce (h : pk.Sound) {source rest : Source}
    (hrun : (pk.encryptKeepingNonce m).runOn source = (.ok (c, r), rest)) : pk.Draws m c r source rest := by
  have hm : pk.checkPlaintext m = .ok () := by
    obtain ⟨_, start, hm, -⟩ := Sampler.runOn_bind_eq_ok.mp hrun
    exact (Prod.mk.inj hm).1
  rcases h.starves_or_draws hm source with ⟨last, hstarves⟩ | ⟨d, s, last, hdraws⟩
  · have heq := hstarves.keeping.symm.trans hrun
    cases heq
  · have heq := hdraws.keeping.symm.trans hrun
    cases heq
    exact hdraws

end Sound

/-- A tracked ciphertext is the one of the plaintext that is read from the bytes, with its nonce. -/
theorem runOn_encryptBytesTracked_eq_ok {data : Bytes} {tracked : TrackedCiphertext} {source rest : Source}
    (hrun : (pk.encryptBytesTracked data).runOn source = (.ok tracked, rest)) :
    ∃ m, pk.plaintextOfBytes data = .ok m ∧
      (pk.encryptKeepingNonce m).runOn source = (.ok (tracked.ciphertext, tracked.nonce), rest) := by
  obtain ⟨m, start, hread, hrun⟩ := Sampler.runOn_bind_eq_ok.mp hrun
  obtain ⟨⟨c, r⟩, last, hpair, htracked⟩ := Sampler.runOn_bind_eq_ok.mp hrun
  cases htracked
  obtain ⟨hm, rfl⟩ := Prod.mk.inj hread
  exact ⟨m, hm, hpair⟩

/--
**A nonce that was drawn may be chosen, and gives the ciphertext again.**

A plaintext out of range is refused before anything is drawn. Any other is encrypted, with the nonce kept or not, unless
the entropy ends. So the nonce of a tracked ciphertext is always one that may be chosen.
-/
theorem drawn_nonce_reproduces {n : Nat} (accepted : ofModulus n = .ok pk) (source : Source) :
    (∀ m : Number, ¬ (0 ≤ m ∧ m < (n : Number)) →
      (pk.encryptKeepingNonce m).runOn source = (refuse .invalidPlaintext, source)) ∧
    (∀ m : Number, 0 ≤ m ∧ m < (n : Number) →
      (∃ rest, pk.Starves m source rest) ∨ ∃ c r rest, pk.Draws m c r source rest) ∧
    ∀ (data : Bytes) (tracked : TrackedCiphertext) (rest : Source),
      (pk.encryptBytesTracked data).runOn source = (.ok tracked, rest) →
        ∃ m, pk.plaintextOfBytes data = .ok m ∧ pk.Draws m tracked.ciphertext tracked.nonce source rest := by
  obtain ⟨hsound, -⟩ := sound_of_ofModulus accepted
  rw [← modulus_eq_of_ofModulus accepted]
  refine ⟨fun m hm => ?_, fun m hm => ?_, fun data tracked rest hrun => ?_⟩
  · refine runOn_encryptKeepingNonce_of_refuse ?_ source
    rw [checkPlaintext_eq_ite, if_neg hm]
  · refine hsound.starves_or_draws ?_ source
    rw [checkPlaintext_eq_ite, if_pos hm]
  · obtain ⟨m, hm, hpair⟩ := runOn_encryptBytesTracked_eq_ok hrun
    exact ⟨m, hm, hsound.draws_of_encryptKeepingNonce hpair⟩

/-- Blocks of 32 bytes for a number that is too large, for zero, three and five, and one byte more. -/
def fourDraws : Source :=
  ⟨List.replicate 32 0xff ++ List.replicate 32 0 ++ (List.replicate 31 0 ++ [3]) ++ (List.replicate 31 0 ++ [5]) ++
    [7], []⟩

/-- Modulo a power of three the first three are in vain, and five is the nonce; for a negative number none is drawn. -/
theorem drawn_nonce_reproduces_fourDraws :
    ∃ pk, ofModulus (3 ^ 161 : Nat) = .ok pk ∧
      (pk.encryptKeepingNonce (.negative 1)).runOn fourDraws = (refuse .invalidPlaintext, fourDraws) ∧
      (∃ c rest, pk.Draws 2 c 5 fourDraws rest ∧ rest.entropy = [7]) ∧
      ∃ tracked rest, (pk.encryptBytesTracked [0, 2]).runOn fourDraws = (.ok tracked, rest) ∧
        pk.plaintextOfBytes [0, 2] = .ok 2 ∧ pk.Draws 2 tracked.ciphertext tracked.nonce fourDraws rest := by
  let pk : PublicKey := ⟨(3 ^ 161 : Nat)⟩
  have hkey : ofModulus (3 ^ 161 : Nat) = .ok pk := ofModulus_powerOfThree
  obtain ⟨hrefused, hinRange, htracked⟩ := drawn_nonce_reproduces hkey fourDraws
  have hkeeping : ((pk.encryptKeepingNonce 2).runOn fourDraws).1.map Prod.snd = .ok 5 ∧
      ((pk.encryptKeepingNonce 2).runOn fourDraws).2.entropy = [7] := by
    decide +kernel
  have hread : pk.plaintextOfBytes [0, 2] = .ok 2 := by decide +kernel
  have hdrawn : ∃ c rest, pk.Draws 2 c 5 fourDraws rest ∧ rest.entropy = [7] := by
    rcases hinRange 2 (by decide +kernel) with ⟨rest, hstarves⟩ | ⟨c, r, rest, hdraws⟩
    · rw [hstarves.keeping] at hkeeping
      cases hkeeping.1
    · rw [hdraws.keeping] at hkeeping
      cases hkeeping.1
      exact ⟨c, rest, hdraws, hkeeping.2⟩
  obtain ⟨c, rest, hdraws, hleft⟩ := hdrawn
  have hbytes : (pk.encryptBytesTracked [0, 2]).runOn fourDraws = (.ok ⟨c, 5⟩, rest) := by
    rw [encryptBytesTracked, hread, Sampler.liftM_ok_bind, encryptTracked,
      Sampler.runOn_bind_of_eq_ok hdraws.keeping]
    rfl
  obtain ⟨m, hm, hagain⟩ := htracked _ _ _ hbytes
  rw [hread] at hm
  cases hm
  exact ⟨pk, hkey, hrefused _ (by decide +kernel), ⟨c, rest, hdraws, hleft⟩, _, rest, hbytes, hread, hagain⟩

/-! ## Scalars -/

/--
The operation with a scalar is the operation with a fresh encryption of it. What is not in place is refused before
anything is drawn; after that only the encryption can fail.
-/
structure EncryptsScalar (pk : PublicKey) (scalarOperation : Number → Number → Sampler Number)
    (operation : Number → Number → Outcome Number) : Prop where
  refuses_ciphertext : ∀ c k source, pk.checkCiphertext c ≠ .ok () →
    (scalarOperation c k).runOn source = (refuse .invalidCiphertext, source)
  refuses_scalar : ∀ c k source, pk.checkCiphertext c = .ok () → ¬ (0 ≤ k ∧ k < pk.modulus) →
    (scalarOperation c k).runOn source = (refuse .invalidPlaintext, source)
  runOn_eq : ∀ c k source, pk.checkCiphertext c = .ok () → 0 ≤ k ∧ k < pk.modulus →
    (scalarOperation c k).runOn source =
      match (pk.encrypt k).runOn source with
      | (.ok e, rest) => (operation c e, rest)
      | (.error failure, rest) => (.error failure, rest)
  invertible : ∀ c k source, ((scalarOperation c k).runOn source).1 ≠ refuse .notInvertible

/--
An operation with a scalar and one with a ciphertext do the same with their two operands, and it can be done with every
valid second one. The former checks the scalar instead of its encryption.
-/
structure Combines (pk : PublicKey) (scalarOperation : Number → Number → Sampler Number)
    (operation combine : Number → Number → Outcome Number) : Prop where
  scalarOperation_eq : ∀ c k, scalarOperation c k = do
    pk.checkCiphertext c
    pk.checkPlaintext k
    let e ← pk.encrypt k
    combine c e
  operation_eq : ∀ c e, operation c e = do
    pk.checkCiphertext c
    pk.checkCiphertext e
    combine c e
  exists_combine : ∀ c e l, pk.ValidCiphertext e l → ∃ d, combine c e = .ok d

section

variable {scalarOperation : Number → Number → Sampler Number} {operation combine : Number → Number → Outcome Number}

namespace Combines

theorem runOn_of_refuse_ciphertext (h : pk.Combines scalarOperation operation combine)
    (hc : pk.checkCiphertext c ≠ .ok ()) (source : Source) :
    (scalarOperation c k).runOn source = (refuse .invalidCiphertext, source) := by
  rw [h.scalarOperation_eq, checkCiphertext_eq_refuse hc]
  rfl

theorem runOn_of_refuse_scalar (h : pk.Combines scalarOperation operation combine)
    (hc : pk.checkCiphertext c = .ok ()) (hk : ¬ (0 ≤ k ∧ k < pk.modulus)) (source : Source) :
    (scalarOperation c k).runOn source = (refuse .invalidPlaintext, source) := by
  rw [h.scalarOperation_eq, hc, Sampler.liftM_ok_bind, checkPlaintext_eq_ite, if_neg hk]
  rfl

/-- A fresh encryption passes the check, so it does not matter that it is not made. -/
theorem runOn_eq (h : pk.Combines scalarOperation operation combine) (hsound : pk.Sound)
    (hc : pk.checkCiphertext c = .ok ()) (hk : 0 ≤ k ∧ k < pk.modulus) (source : Source) :
    (scalarOperation c k).runOn source =
      match (pk.encrypt k).runOn source with
      | (.ok e, rest) => (operation c e, rest)
      | (.error failure, rest) => (.error failure, rest) := by
  have hsteps : scalarOperation c k = (do let e ← pk.encrypt k; (liftM (combine c e) : Sampler Number)) := by
    rw [h.scalarOperation_eq, hc, Sampler.liftM_ok_bind, checkPlaintext_eq_ite, if_pos hk, Sampler.liftM_ok_bind]
  rw [hsteps, Sampler.runOn_bind]
  rcases hrun : (pk.encrypt k).runOn source with ⟨failure | e, rest⟩
  · rfl
  · obtain ⟨-, he⟩ := hsound.mayBeOperand_of_encrypt hrun
    dsimp only
    rw [Sampler.runOn_outcome, h.operation_eq, hc, ok_bind, he, ok_bind]

/-- **With a scalar nothing but the entropy can give out.** -/
theorem delivers_or_starves (h : pk.Combines scalarOperation operation combine) (hsound : pk.Sound)
    (hc : pk.checkCiphertext c = .ok ()) (hk : 0 ≤ k ∧ k < pk.modulus) (source : Source) :
    (∃ d, ((scalarOperation c k).runOn source).1 = .ok d) ∨
      ((scalarOperation c k).runOn source).1 = refuse .entropyFailure := by
  have hplaintext : pk.checkPlaintext k = .ok () := by
    rw [checkPlaintext_eq_ite, if_pos hk]
  rw [h.runOn_eq hsound hc hk]
  rcases hsound.starves_or_draws hplaintext source with ⟨rest, hstarves⟩ | ⟨e, r, rest, hdraws⟩
  · rw [hstarves.dropping]
    exact Or.inr rfl
  · rw [hdraws.dropping]
    obtain ⟨l, hl⟩ := hsound.exists_valid_of_encrypt ⟨source, rest, hdraws.dropping⟩
    obtain ⟨d, hd⟩ := h.exists_combine c e l hl
    refine Or.inl ⟨d, ?_⟩
    dsimp only
    rw [h.operation_eq, hc, ok_bind, hl.check_eq_ok hsound, ok_bind, hd]

theorem encryptsScalar (h : pk.Combines scalarOperation operation combine) (hsound : pk.Sound) :
    pk.EncryptsScalar scalarOperation operation := by
  refine ⟨fun _ _ source hc => h.runOn_of_refuse_ciphertext hc source,
    fun _ _ source hc hk => h.runOn_of_refuse_scalar hc hk source,
    fun _ _ source hc hk => h.runOn_eq hsound hc hk source, fun c k source hinverse => ?_⟩
  by_cases hc : pk.checkCiphertext c = .ok ()
  · by_cases hk : 0 ≤ k ∧ k < pk.modulus
    · rcases h.delivers_or_starves hsound hc hk source with ⟨d, hd⟩ | hstarved
      · exact ok_ne_refuse (hd.symm.trans hinverse)
      · exact absurd (refuse_inj.mp (hstarved.symm.trans hinverse)) (by decide)
    · rw [h.runOn_of_refuse_scalar hc hk] at hinverse
      exact absurd (refuse_inj.mp hinverse) (by decide)
  · rw [h.runOn_of_refuse_ciphertext hc] at hinverse
    exact absurd (refuse_inj.mp hinverse) (by decide)

end Combines

end

namespace Sound

theorem combines_addScalar (h : pk.Sound) :
    pk.Combines pk.addScalar pk.add fun c e => Residue.mul c e pk.modulusSquared where
  scalarOperation_eq _ _ := rfl
  operation_eq _ _ := rfl
  exists_combine c e _ _ := by
    obtain ⟨d, -, hd⟩ := Residue.exists_mul_eq c e h.modulusSquared_odd
    exact ⟨d, hd⟩

/-- The inverse is that of a fresh encryption, which has one. -/
theorem combines_subScalar (h : pk.Sound) :
    pk.Combines pk.subScalar pk.sub fun c e => do
      let inverse ← pk.invertCiphertext e
      Residue.mul c inverse pk.modulusSquared where
  scalarOperation_eq c k := by
    simp only [subScalar, Sampler.liftM_bind]
  operation_eq _ _ := rfl
  exists_combine c e l hl := by
    obtain ⟨i, hi, -⟩ := h.invertCiphertext_eq hl
    obtain ⟨d, -, hd⟩ := Residue.exists_mul_eq c i h.modulusSquared_odd
    exact ⟨d, by rw [hi, ok_bind, hd]⟩

end Sound

/--
**Both operations with a scalar are the operation with a fresh encryption of it**, with its failures and for its price.

The ciphertext that is inverted on the way always has an inverse.
-/
theorem scalar_operations_encrypt {n : Nat} (accepted : ofModulus n = .ok pk) :
    pk.modulus = n ∧ pk.EncryptsScalar pk.addScalar pk.add ∧ pk.EncryptsScalar pk.subScalar pk.sub := by
  obtain ⟨hsound, -⟩ := sound_of_ofModulus accepted
  exact ⟨modulus_eq_of_ofModulus accepted, hsound.combines_addScalar.encryptsScalar hsound,
    hsound.combines_subScalar.encryptsScalar hsound⟩

/--
Modulo a power of three, six is no unit and a negative number no plaintext; two plus and minus five take as much entropy
as five.
-/
theorem scalar_operations_encrypt_fourDraws :
    ∃ pk, ofModulus (3 ^ 161 : Nat) = .ok pk ∧
      (pk.addScalar 6 5).runOn fourDraws = (refuse .invalidCiphertext, fourDraws) ∧
      (pk.subScalar 2 (.negative 1)).runOn fourDraws = (refuse .invalidPlaintext, fourDraws) ∧
      ∃ e rest, (pk.encrypt 5).runOn fourDraws = (.ok e, rest) ∧ rest.entropy = [7] ∧
        (pk.addScalar 2 5).runOn fourDraws = (pk.add 2 e, rest) ∧
        (pk.subScalar 2 5).runOn fourDraws = (pk.sub 2 e, rest) := by
  let pk : PublicKey := ⟨(3 ^ 161 : Nat)⟩
  have hkey : ofModulus (3 ^ 161 : Nat) = .ok pk := ofModulus_powerOfThree
  obtain ⟨-, hadd, hsub⟩ := scalar_operations_encrypt hkey
  have hunit : pk.checkCiphertext 2 = .ok () := by decide +kernel
  have hfive : 0 ≤ (5 : Number) ∧ 5 < pk.modulus := by decide +kernel
  have hleft : ((pk.encrypt 5).runOn fourDraws).1.map (fun _ => ()) = .ok () ∧
      ((pk.encrypt 5).runOn fourDraws).2.entropy = [7] := by
    decide +kernel
  have hsum := hadd.runOn_eq 2 5 fourDraws hunit hfive
  have hdifference := hsub.runOn_eq 2 5 fourDraws hunit hfive
  rcases hrun : (pk.encrypt 5).runOn fourDraws with ⟨_ | e, rest⟩
  · rw [hrun] at hleft
    cases hleft.1
  · rw [hrun] at hleft hsum hdifference
    exact ⟨pk, hkey, hadd.refuses_ciphertext 6 5 _ (by decide +kernel),
      hsub.refuses_scalar 2 _ _ hunit (by decide +kernel), e, rest, hrun, hleft.2, hsum, hdifference⟩

end PublicKey

end Paillier
