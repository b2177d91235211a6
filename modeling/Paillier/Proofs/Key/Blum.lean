import Mathlib.NumberTheory.LegendreSymbol.QuadraticReciprocity
import Paillier.Proofs.Key.Capacity

/-!
# What the residues modulo 8 are for

The primes of a key are `3` and `7` modulo 8. That fixes the quadratic characters of `-1` and `2`: modulo `p` both are
`-1`, modulo `q` they are `-1` and `1`. So the four multipliers `1`, `-1`, `2`, `-2` have the four pairs of characters,
and each unit is made a square by exactly one of them. Moreover one of `x` and `-x` is a square modulo each prime, which
makes the square of a unit a fourth power. Proofs that a modulus has two prime factors ask for such roots.

## Main statements

* `isPowerModulo_mul_iff` — a power modulo a product is one modulo both factors.
* `PrimePair.existsUnique_multiplier`, `PrimePair.isFourthPower_sq` — the roots that there are.
* `PrivateKey.existsUnique_multiplier_of_arises` — they are there for every key.
-/

namespace Paillier

/-! ## Powers modulo a number -/

/-- The integer is a `k`-th power modulo `n`. -/
def IsPowerModulo (k n : Nat) (y : Int) : Prop := ∃ z : Int, z ^ k ≡ y [ZMOD n]

section

variable {k m n : Nat} {x y : Int}

theorem isPowerModulo_iff : IsPowerModulo k n y ↔ ∃ z : ZMod n, z ^ k = y := by
  constructor
  · rintro ⟨z, hz⟩
    refine ⟨z, ?_⟩
    rw [← Int.cast_pow, (ZMod.intCast_eq_intCast_iff _ _ _).mpr hz]
  · rintro ⟨z, hz⟩
    obtain ⟨w, rfl⟩ := ZMod.intCast_surjective z
    refine ⟨w, (ZMod.intCast_eq_intCast_iff _ _ _).mp ?_⟩
    rw [Int.cast_pow, hz]

/-- **A power modulo a product of coprime factors is a power modulo each of them**, and the other way round. -/
theorem isPowerModulo_mul_iff (h : m.Coprime n) :
    IsPowerModulo k (m * n) y ↔ IsPowerModulo k m y ∧ IsPowerModulo k n y := by
  simp only [isPowerModulo_iff]
  constructor
  · rintro ⟨z, hz⟩
    have hpair := congrArg (ZMod.chineseRemainder h) hz
    rw [map_pow, map_intCast] at hpair
    obtain ⟨hleft, hright⟩ := Prod.ext_iff.mp hpair
    exact ⟨⟨_, hleft⟩, ⟨_, hright⟩⟩
  · rintro ⟨⟨u, hu⟩, ⟨v, hv⟩⟩
    refine ⟨(ZMod.chineseRemainder h).symm (u, v), (ZMod.chineseRemainder h).injective ?_⟩
    rw [map_pow, RingEquiv.apply_symm_apply, map_intCast]
    exact Prod.ext hu hv

/-- The square of a square is a fourth power. -/
theorem IsPowerModulo.sq (h : IsPowerModulo 2 n x) : IsPowerModulo 4 n (x ^ 2) := by
  obtain ⟨z, hz⟩ := h
  refine ⟨z, ?_⟩
  rw [show z ^ 4 = (z ^ 2) ^ 2 by ring]
  exact hz.pow 2

end

/-! ## One prime -/

section

variable {p : Nat} [Fact p.Prime] {x y : Int}

theorem isSquareModulo_iff (hy : (y : ZMod p) ≠ 0) : IsPowerModulo 2 p y ↔ legendreSym p y = 1 := by
  rw [isPowerModulo_iff, legendreSym.eq_one_iff p hy, isSquare_iff_exists_sq]
  simp only [eq_comm]

theorem legendreSym_neg_one (h : p % 4 = 3) : legendreSym p (-1) = -1 := by
  rw [legendreSym.at_neg_one (by omega), ZMod.χ₄_nat_three_mod_four h]

theorem legendreSym_two_of_three (h : p % 8 = 3) : legendreSym p 2 = -1 := by
  rw [legendreSym.at_two (by omega), ZMod.χ₈_nat_eq_if_mod_eight, if_neg (by omega), if_neg (by omega)]

theorem legendreSym_two_of_seven (h : p % 8 = 7) : legendreSym p 2 = 1 := by
  rw [legendreSym.at_two (by omega), ZMod.χ₈_nat_eq_if_mod_eight, if_neg (by omega), if_pos (by omega)]

/-- A multiplier makes the number a square iff both have the same character. -/
theorem isSquareModulo_mul_iff {t : Int} (ht : (t : ZMod p) ≠ 0) (hy : (y : ZMod p) ≠ 0) :
    IsPowerModulo 2 p (t * y) ↔ legendreSym p t = legendreSym p y := by
  have hmul : ((t * y : Int) : ZMod p) ≠ 0 := by
    rw [Int.cast_mul]
    exact mul_ne_zero ht hy
  rw [isSquareModulo_iff hmul, legendreSym.mul]
  rcases legendreSym.eq_one_or_neg_one p ht with h | h <;> rcases legendreSym.eq_one_or_neg_one p hy with h' | h' <;>
    rw [h, h'] <;> decide

/-- **The square of a unit is a fourth power**, as the unit or its opposite is a square. -/
theorem isFourthPower_sq (h : p % 4 = 3) (hx : (x : ZMod p) ≠ 0) : IsPowerModulo 4 p (x ^ 2) := by
  rcases legendreSym.eq_one_or_neg_one p hx with hsquare | hnonsquare
  · exact ((isSquareModulo_iff hx).mpr hsquare).sq
  · have hopposite : IsPowerModulo 2 p (-1 * x) := by
      rw [isSquareModulo_mul_iff (by simp) hx, legendreSym_neg_one h, hnonsquare]
    have hpower := hopposite.sq
    rwa [neg_one_mul, neg_sq] at hpower

end

/-! ## Two primes -/

/-- What is coprime to a multiple of a prime is not zero modulo the prime. -/
theorem intCast_ne_zero_of_gcd_eq_one {p n : Nat} (hp : p.Prime) (hdvd : p ∣ n) {y : Int} (h : Int.gcd y n = 1) :
    (y : ZMod p) ≠ 0 := by
  intro hzero
  have hy : (p : Int) ∣ y := (ZMod.intCast_zmod_eq_zero_iff_dvd y p).mp hzero
  have hone : p ∣ Int.gcd y n := Int.dvd_gcd hy (Int.natCast_dvd_natCast.mpr hdvd)
  rw [h] at hone
  exact hp.one_lt.ne' (Nat.dvd_one.mp hone)

/-- Of four numbers whose pairs of signs are the four there are, one has the pair that is asked for. -/
theorem existsUnique_of_signs {f g : Int → Int} (hone : f 1 = 1 ∧ g 1 = 1) (hneg : f (-1) = -1 ∧ g (-1) = -1)
    (htwo : f 2 = -1 ∧ g 2 = 1) (hnegTwo : f (-2) = 1 ∧ g (-2) = -1) {a b : Int} (ha : a = 1 ∨ a = -1)
    (hb : b = 1 ∨ b = -1) : ∃! t : Int, t ∈ [1, -1, 2, -2] ∧ f t = a ∧ g t = b := by
  obtain ⟨t, ht, hsigns⟩ : ∃ t ∈ ([1, -1, 2, -2] : List Int), f t = a ∧ g t = b := by
    rcases ha with rfl | rfl <;> rcases hb with rfl | rfl
    · exact ⟨1, by decide, hone⟩
    · exact ⟨-2, by decide, hnegTwo⟩
    · exact ⟨2, by decide, htwo⟩
    · exact ⟨-1, by decide, hneg⟩
  refine ⟨t, ⟨ht, hsigns⟩, ?_⟩
  rintro s ⟨hs, hssigns⟩
  simp only [List.mem_cons, List.not_mem_nil, or_false] at ht hs
  rcases ht with rfl | rfl | rfl | rfl <;> rcases hs with rfl | rfl | rfl | rfl <;> first | rfl | omega

namespace PrimePair

variable {p q : Nat} {x y : Int}

/-- **The four multipliers have the four pairs of characters**, so exactly one of them has the pair of a given unit. -/
theorem existsUnique_multiplier (h : PrimePair p q) (hy : Int.gcd y (p * q : Nat) = 1) :
    ∃! t : Int, t ∈ [1, -1, 2, -2] ∧ IsPowerModulo 2 (p * q) (t * y) := by
  have : Fact p.Prime := ⟨h.prime_p⟩
  have : Fact q.Prime := ⟨h.prime_q⟩
  have hp := h.residue_p
  have hq := h.residue_q
  have hyp := intCast_ne_zero_of_gcd_eq_one h.prime_p (Nat.dvd_mul_right p q) hy
  have hyq := intCast_ne_zero_of_gcd_eq_one h.prime_q (Nat.dvd_mul_left q p) hy
  -- the characters of -2 are the products of those of -1 and 2
  have hpneg : legendreSym p (-1) = -1 := legendreSym_neg_one (by omega)
  have hqneg : legendreSym q (-1) = -1 := legendreSym_neg_one (by omega)
  have hptwo := legendreSym_two_of_three hp
  have hqtwo := legendreSym_two_of_seven hq
  have hpnegTwo : legendreSym p (-2) = 1 := by
    rw [show (-2 : Int) = -1 * 2 by decide, legendreSym.mul, hpneg, hptwo]
    decide
  have hqnegTwo : legendreSym q (-2) = -1 := by
    rw [show (-2 : Int) = -1 * 2 by decide, legendreSym.mul, hqneg, hqtwo]
    decide
  have hsquare : ∀ t : Int, t ∈ [1, -1, 2, -2] ∧ IsPowerModulo 2 (p * q) (t * y) ↔
      t ∈ [1, -1, 2, -2] ∧ legendreSym p t = legendreSym p y ∧ legendreSym q t = legendreSym q y := by
    intro t
    refine and_congr_right fun ht => ?_
    rw [isPowerModulo_mul_iff h.coprime, isSquareModulo_mul_iff _ hyp, isSquareModulo_mul_iff _ hyq]
    all_goals
      rw [Ne, ← legendreSym.eq_zero_iff]
      simp only [List.mem_cons, List.not_mem_nil, or_false] at ht
      rcases ht with rfl | rfl | rfl | rfl <;> simp [*]
  simp only [hsquare]
  exact existsUnique_of_signs ⟨legendreSym.at_one p, legendreSym.at_one q⟩ ⟨hpneg, hqneg⟩ ⟨hptwo, hqtwo⟩
    ⟨hpnegTwo, hqnegTwo⟩ (legendreSym.eq_one_or_neg_one p hyp) (legendreSym.eq_one_or_neg_one q hyq)

/-- **The square of every unit is a fourth power.** -/
theorem isFourthPower_sq (h : PrimePair p q) (hx : Int.gcd x (p * q : Nat) = 1) : IsPowerModulo 4 (p * q) (x ^ 2) := by
  have : Fact p.Prime := ⟨h.prime_p⟩
  have : Fact q.Prime := ⟨h.prime_q⟩
  have hp := h.residue_p
  have hq := h.residue_q
  exact (isPowerModulo_mul_iff h.coprime).mpr
    ⟨Paillier.isFourthPower_sq (by omega) (intCast_ne_zero_of_gcd_eq_one h.prime_p (Nat.dvd_mul_right p q) hx),
      Paillier.isFourthPower_sq (by omega) (intCast_ne_zero_of_gcd_eq_one h.prime_q (Nat.dvd_mul_left q p) hx)⟩

end PrimePair

/-! ## Keys -/

namespace PrivateKey

variable {sk : PrivateKey}

/-- The ways to a key of positive numbers: it is made of them, or it is generated. -/
inductive Arises (sk : PrivateKey) : Prop
  | ofPrimes {p q : Nat} (accepted : ofPrimes p q = .ok sk)
  | generated {bits : Nat} {source rest : Source} {pk : PublicKey}
      (h : (generateKeyPair bits).runOn source = (.ok (pk, sk), rest))

/-- What is put together has the product of its two numbers for a modulus. -/
theorem n_of_ofPrimesUnchecked {a b : Number} (h : ofPrimesUnchecked a b = .ok (some sk)) :
    sk.publicKey.n = sk.p.magnitude * sk.q.magnitude := by
  obtain ⟨hp, hq, hn, -⟩ := ofPrimesUnchecked_eq_ok h
  rw [hp, hq]
  exact magnitude_of_product hn

/-- **Either way the key holds a prime pair**, and the modulus is its product. -/
theorem Arises.primePair (h : sk.Arises) (hp : ExactAt sk.p.magnitude) (hq : ExactAt sk.q.magnitude) :
    PrimePair sk.p.magnitude sk.q.magnitude ∧ sk.publicKey.n = sk.p.magnitude * sk.q.magnitude := by
  cases h with
  | ofPrimes accepted =>
    obtain ⟨hlen, hresp, hresq, hpassp, hpassq, hunchecked, -⟩ := ofPrimes_eq_ok accepted
    obtain ⟨hsp, hsq⟩ := primes_of_ofPrimesUnchecked hunchecked
    rw [← hsp] at hlen hresp hpassp
    rw [← hsq] at hlen hresq hpassq
    exact ⟨⟨hp.mp hpassp, hq.mp hpassq, hlen, hresp, hresq⟩, n_of_ofPrimesUnchecked hunchecked⟩
  | generated hrun =>
    obtain ⟨hmin, hmax⟩ := bits_of_generateKeyPair hrun
    obtain ⟨_, middle, hkey, hpair⟩ := Sampler.runOn_bind_eq_ok.mp hrun
    cases hpair
    obtain ⟨p, q, ⟨hcp, hpassp⟩, ⟨hcq, hpassq⟩, hunchecked⟩ := (yields_generateKey hmin hmax).of_runOn_eq_ok hkey
    obtain ⟨hsp, hsq⟩ := primes_of_ofPrimesUnchecked hunchecked
    rw [hsp] at hp
    rw [hsq] at hq
    have hlen : bitLength p = bitLength q := by
      rw [hcp.bitLength_eq (by omega), hcq.bitLength_eq (by omega)]
    refine ⟨?_, n_of_ofPrimesUnchecked hunchecked⟩
    rw [hsp, hsq]
    exact ⟨hp.mp hpassp, hq.mp hpassq, hlen, hcp.residue_eq, hcq.residue_eq⟩

/--
**For every unit modulo `N` the roots are there that a proof about the modulus asks for.**

Exactly one of `y`, `-y`, `2 * y`, `-2 * y` is a square, and the square of a unit is a fourth power. The multipliers are
four different numbers, so it is one of the four places, not only one of the four values.
-/
theorem existsUnique_multiplier_of_arises (h : sk.Arises) (hp : ExactAt sk.p.magnitude)
    (hq : ExactAt sk.q.magnitude) :
    (∀ y : Int, Int.gcd y sk.publicKey.n = 1 →
      ∃! t : Int, t ∈ [1, -1, 2, -2] ∧ IsPowerModulo 2 sk.publicKey.n (t * y)) ∧
    ∀ x : Int, Int.gcd x sk.publicKey.n = 1 → IsPowerModulo 4 sk.publicKey.n (x ^ 2) := by
  obtain ⟨hpair, hn⟩ := h.primePair hp hq
  rw [hn]
  exact ⟨fun y hy => hpair.existsUnique_multiplier hy, fun x hx => hpair.isFourthPower_sq hx⟩

/-- Five, under the key of the example. -/
theorem existsUnique_multiplier_of_arises_five :
    ∃ sk : PrivateKey, sk.Arises ∧ (ExactAt sk.p.magnitude ∧ ExactAt sk.q.magnitude) ∧ Int.gcd 5 sk.publicKey.n = 1 ∧
      (∃! t : Int, t ∈ [1, -1, 2, -2] ∧ IsPowerModulo 2 sk.publicKey.n (t * 5)) ∧
      IsPowerModulo 4 sk.publicKey.n (5 ^ 2) := by
  obtain ⟨sk, hsk⟩ := exists_ofPrimes_example
  obtain ⟨hsp, hsq⟩ := primes_of_ofPrimes hsk
  have hp : ExactAt sk.p.magnitude := by
    rw [hsp, Number.magnitude_ofNat]
    exact exactAt_exampleP
  have hq : ExactAt sk.q.magnitude := by
    rw [hsq, Number.magnitude_ofNat]
    exact exactAt_exampleQ
  have hunit : Int.gcd 5 sk.publicKey.n = 1 := by
    rw [((Arises.ofPrimes hsk).primePair hp hq).2, hsp, hsq, Number.magnitude_ofNat, Number.magnitude_ofNat]
    decide +kernel
  obtain ⟨hsquare, hfourth⟩ := existsUnique_multiplier_of_arises (.ofPrimes hsk) hp hq
  exact ⟨sk, .ofPrimes hsk, ⟨hp, hq⟩, hunit, hsquare 5 hunit, hfourth 5 hunit⟩

end PrivateKey

end Paillier
