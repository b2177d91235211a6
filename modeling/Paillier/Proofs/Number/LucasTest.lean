import Mathlib.FieldTheory.IsAlgClosed.AlgebraicClosure
import Mathlib.NumberTheory.LegendreSymbol.JacobiSymbol
import Paillier.Proofs.Number.StrongTest

/-!
# Primes pass the Lucas test

The terms of a Lucas sequence are sums and differences of powers of two numbers `α` and `β`, the roots of `X² - X + Q`.
If the discriminant is no square modulo a prime `p`, they lie in a larger field, and there `α ^ p = β` and `β ^ p = α`.
So `α` and `β` have the same power with exponent `p + 1`, and from there the strong test goes back to smaller exponents.

A discriminant that is no square is always found. The residues of the first `p` discriminants are all residues modulo
`p` but those of `1` and `-3`, and with each number that is no square its fourfold is none either.

## Main statements

* `jacobi_eq` — the symbol is computed as it should.
* `exists_discriminant_cast_eq`, `exists_discriminantFrom_eq` — the search for a discriminant finds one.
* `isLucasTerm_lucasTerm` — the terms by powers of `α` and `β`.
* `isStrongLucasProbablePrime_of_prime` — an odd prime passes the Lucas test.
* `isPrime_of_prime` — every prime passes both tests.
-/

namespace Paillier

open NumberTheorySymbols

/-! ## The Jacobi symbol -/

/-- **The symbol is computed as it should**, by the law of quadratic reciprocity and its supplement for two. -/
theorem jacobi_eq {a n : Nat} (hn : n % 2 = 1) : jacobi a n = J(a | n) := by
  induction a, n using jacobi.induct with
  | case1 => rw [jacobi, if_pos rfl, if_pos rfl, jacobiSym.one_right]
  | case2 n h =>
    have hone : 1 < n := by omega
    rw [jacobi, if_pos rfl, if_neg h, Nat.cast_zero, jacobiSym.zero_left hone]
  | case3 a n hzero heven ih =>
    have htwo := jacobiSym.even_odd (a := a) (b := n) (by exact_mod_cast heven) hn
    rw [jacobi, if_neg hzero, if_pos heven, ih hn, ← htwo]
    push_cast
    split <;> ring
  | case4 a n hzero hodd ih =>
    have hodd : a % 2 = 1 := by omega
    have hswap := jacobiSym.quadratic_reciprocity_if hodd hn
    rw [jacobi, if_neg hzero, if_neg (by omega), ih hodd, ← hswap, jacobiSym.mod_left n a, Int.natCast_mod]
    split <;> ring

/-! ## Discriminants -/

section

variable {p : Nat}

theorem discriminant_even (j : Nat) : discriminant (2 * j) = 4 * j + 5 := by
  rw [discriminant, if_pos (by omega)]
  omega

theorem discriminant_odd (j : Nat) : discriminant (2 * j + 1) = -(4 * j + 7) := by
  rw [discriminant, if_neg (by omega)]
  push_cast
  ring

/-- All of them are one modulo four. -/
theorem exists_discriminant_eq (k : Nat) : ∃ q : Int, discriminant k = 1 - 4 * q := by
  rcases Nat.even_or_odd' k with ⟨j, rfl | rfl⟩
  · exact ⟨-(j + 1), by rw [discriminant_even]; ring⟩
  · exact ⟨j + 2, by rw [discriminant_odd]; ring⟩

/-- There is a number without a square root that is not `-3`. -/
theorem exists_not_isSquare [Fact p.Prime] (hodd : p % 2 = 1) : ∃ a : ZMod p, ¬ IsSquare a ∧ a ≠ -3 := by
  have hchar : ringChar (ZMod p) ≠ 2 := by
    rw [ZMod.ringChar_zmod_n]
    omega
  have htwo : (2 : ZMod p) ≠ 0 := Ring.two_ne_zero hchar
  obtain ⟨a, ha⟩ := FiniteField.exists_nonsquare hchar
  by_cases hthree : a = -3
  · -- the fourfold of a number is a square only if the number is
    refine ⟨a * (2 * 2), fun hsquare => ha ?_, fun hfour => ha ?_⟩
    · have hdiv := hsquare.div (IsSquare.mul_self (2 : ZMod p))
      rwa [mul_div_cancel_right₀ a (mul_ne_zero htwo htwo)] at hdiv
    · have hnine : (-3 : ZMod p) * 3 = 0 := by
        rw [hthree] at hfour
        linear_combination hfour
      have hzero : a = 0 := by
        rcases mul_eq_zero.mp hnine with hneg | hpos
        · rw [hthree, hneg]
        · rw [hthree, hpos, neg_zero]
      rw [hzero]
      exact IsSquare.zero
  · exact ⟨a, ha, hthree⟩

/-- **The residues of the first `p` discriminants** are all residues but those of `1` and `-3`. -/
theorem exists_discriminant_cast_eq [Fact p.Prime] (hodd : p % 2 = 1) {a : ZMod p} (hone : a ≠ 1) (hthree : a ≠ -3) :
    ∃ k < p, (discriminant k : ZMod p) = a := by
  have htwo : (2 : ZMod p) ≠ 0 := two_ne_zero_of_odd Fact.out hodd
  have hfour : (4 : ZMod p) ≠ 0 := by
    rw [show (4 : ZMod p) = 2 * 2 by norm_num]
    exact mul_ne_zero htwo htwo
  -- the even places hold `4 * i + 5` for small `i`, the odd ones for large `i`
  generalize hi : ((a - 5) / 4 : ZMod p).val = i
  have hlt : i < p := hi ▸ ZMod.val_lt _
  have hval : 4 * (i : ZMod p) + 5 = a := by
    rw [← hi, ZMod.natCast_zmod_val, mul_div_cancel₀ _ hfour, sub_add_cancel]
  have hplus : ∀ {m : Nat}, i + m = p → (i : ZMod p) = -m := fun {m} h =>
    eq_neg_of_add_eq_zero_left (by rw [← Nat.cast_add, h, ZMod.natCast_self])
  have hfirst : i + 1 ≠ p := by
    intro h
    refine hone (hval ▸ ?_)
    rw [hplus h]
    norm_num
  have hsecond : i + 2 ≠ p := by
    intro h
    refine hthree (hval ▸ ?_)
    rw [hplus h]
    norm_num
  rcases Nat.lt_or_ge (2 * i) p with hsmall | hlarge
  · refine ⟨2 * i, hsmall, ?_⟩
    rw [discriminant_even, ← hval]
    push_cast
    rfl
  · obtain ⟨j, hj⟩ := Nat.exists_eq_add_of_le' (show i + 3 ≤ p by omega)
    refine ⟨2 * j + 1, by omega, ?_⟩
    rw [discriminant_odd, ← hval, hplus (m := j + 3) (by omega)]
    push_cast
    ring

/-- So one of them is no square. -/
theorem exists_jacobiSym_discriminant (hp : p.Prime) (hodd : p % 2 = 1) : ∃ k < p, J(discriminant k | p) = -1 := by
  have : Fact p.Prime := ⟨hp⟩
  obtain ⟨a, ha, hthree⟩ := exists_not_isSquare hodd
  have hone : a ≠ 1 := fun h => ha (h ▸ IsSquare.one)
  obtain ⟨k, hk, rfl⟩ := exists_discriminant_cast_eq hodd hone hthree
  refine ⟨k, hk, ?_⟩
  rwa [← jacobiSym.legendreSym.to_jacobiSym, legendreSym.eq_neg_one_iff]

theorem toNat_emod (hp : 0 < p) (d : Int) : (((d % p).toNat : Nat) : Int) = d % p :=
  Int.toNat_of_nonneg (Int.emod_nonneg d (by omega))

/-- **The search for a discriminant finds one** if there is one. Only multiples of a prime share a factor with it. -/
theorem exists_discriminantFrom_eq (hp : p.Prime) (hodd : p % 2 = 1) {left k j : Nat} (hk : k ≤ j)
    (hj : j < k + left) (hfind : J(discriminant j | p) = -1) :
    ∃ i, discriminantFrom p left k = some (discriminant i) ∧ J(discriminant i | p) = -1 := by
  induction left generalizing k with
  | zero => omega
  | succ left ih =>
    have hjacobi : jacobi (discriminant k % p).toNat p = J(discriminant k | p) := by
      rw [jacobi_eq hodd, toNat_emod hp.pos, ← jacobiSym.mod_left]
    have hnext : J(discriminant k | p) ≠ -1 →
        ∃ i, discriminantFrom p left (k + 1) = some (discriminant i) ∧ J(discriminant i | p) = -1 := by
      intro hne
      have hkj : k ≠ j := fun h => hne (h ▸ hfind)
      exact ih (by omega) (by omega)
    rw [discriminantFrom, hjacobi]
    rcases jacobiSym.trichotomy (discriminant k) p with hzero | hone | hneg
    · have hmul : (discriminant k % p).toNat = 0 := by
        have : NeZero p := ⟨hp.ne_zero⟩
        have hgcd := jacobiSym.eq_zero_iff_not_coprime.mp hzero
        have hdvd : (p : Int) ∣ discriminant k := by
          by_contra hndvd
          exact hgcd (Int.isCoprime_iff_gcd_eq_one.mp
            (((Nat.prime_iff_prime_int.mp hp).coprime_iff_not_dvd.mpr hndvd).symm))
        rw [Int.emod_eq_zero_of_dvd hdvd]
        rfl
      rw [hzero, hmul]
      exact hnext (by rw [hzero]; decide)
    · rw [hone]
      exact hnext (by rw [hone]; decide)
    · rw [hneg]
      exact ⟨k, rfl, hneg⟩

end

/-! ## Terms by powers -/

section

variable {K : Type*} [Field K] {p d q k : Nat} {α β : K} {t : LucasTerm}

/-- What the term at the index `k` holds modulo `p`, for the numbers `α` and `β`. -/
structure IsLucasTerm (p : Nat) (α β : K) (k : Nat) (t : LucasTerm) : Prop where
  u_lt : t.u < p
  v_lt : t.v < p
  q_lt : t.q < p
  u_mul_sub : t.u * (α - β) = α ^ k - β ^ k
  v_eq : t.v = α ^ k + β ^ k
  q_eq : t.q = (α * β) ^ k

theorem halve_lt (hp : 0 < p) (a : Nat) : halve a p < p := by
  unfold halve
  split <;> exact Nat.mod_lt _ hp

variable [CharP K p]

theorem cast_mod (a : Nat) : ((a % p : Nat) : K) = a := (CharP.cast_eq_mod K p a).symm

theorem cast_toNat_emod (hp : 0 < p) (a : Int) : (((a % p).toNat : Nat) : K) = a := by
  have hint : (((a % p).toNat : Nat) : Int) = a % p := toNat_emod hp a
  rw [← Int.cast_natCast, hint, ← CharP.intCast_eq_intCast_mod]

theorem cast_eq_zero_iff_of_lt {a : Nat} (ha : a < p) : (a : K) = 0 ↔ a = 0 := by
  rw [CharP.cast_eq_zero_iff K p]
  exact ⟨fun h => Nat.eq_zero_of_dvd_of_lt h ha, fun h => h ▸ dvd_zero p⟩

theorem cast_halve (hodd : p % 2 = 1) (a : Nat) : 2 * (halve a p : K) = a := by
  have hcast : ((2 : Nat) : K) * (halve a p : K) = ((a : Nat) : K) := by
    unfold halve
    split
    · rw [cast_mod, ← Nat.cast_mul, Nat.mul_div_cancel' (by omega)]
    · rw [cast_mod, ← Nat.cast_mul, Nat.mul_div_cancel' (by omega), Nat.cast_add, CharP.cast_eq_zero K p,
        add_zero]
  exact_mod_cast hcast

namespace IsLucasTerm

theorem zero (hp : 0 < p) : IsLucasTerm p α β 0 ⟨0, 2 % p, 1 % p⟩ where
  u_lt := hp
  v_lt := Nat.mod_lt _ hp
  q_lt := Nat.mod_lt _ hp
  u_mul_sub := by simp
  v_eq := by
    rw [cast_mod, pow_zero, pow_zero]
    norm_num
  q_eq := by
    rw [cast_mod, pow_zero, Nat.cast_one]

theorem double (h : IsLucasTerm p α β k t) : IsLucasTerm p α β (2 * k) (t.double p) := by
  have hp : 0 < p := Nat.zero_lt_of_lt h.u_lt
  refine ⟨Nat.mod_lt _ hp, Nat.mod_lt _ hp, Nat.mod_lt _ hp, ?_, ?_, ?_⟩
  · calc ((t.u * t.v % p : Nat) : K) * (α - β) = (t.u * (α - β)) * t.v := by
          rw [cast_mod]
          push_cast
          ring
      _ = α ^ (2 * k) - β ^ (2 * k) := by
          rw [h.u_mul_sub, h.v_eq]
          ring
  · calc (((t.v * t.v + 2 * (p - t.q)) % p : Nat) : K) = t.v * t.v - 2 * t.q := by
          rw [cast_mod, Nat.cast_add, Nat.cast_mul, Nat.cast_mul, Nat.cast_sub (Nat.le_of_lt h.q_lt),
            CharP.cast_eq_zero K p]
          push_cast
          ring
      _ = α ^ (2 * k) + β ^ (2 * k) := by
          rw [h.v_eq, h.q_eq]
          ring
  · calc ((t.q * t.q % p : Nat) : K) = t.q * t.q := by rw [cast_mod, Nat.cast_mul]
      _ = (α * β) ^ (2 * k) := by
          rw [h.q_eq]
          ring

theorem next (hodd : p % 2 = 1) (htwo : (2 : K) ≠ 0) (hsum : α + β = 1) (hd : (d : K) = (α - β) ^ 2)
    (hq : (q : K) = α * β) (h : IsLucasTerm p α β k t) : IsLucasTerm p α β (k + 1) (t.next p d q) := by
  have hp : 0 < p := Nat.zero_lt_of_lt h.u_lt
  refine ⟨halve_lt hp _, halve_lt hp _, Nat.mod_lt _ hp, mul_left_cancel₀ htwo ?_, mul_left_cancel₀ htwo ?_, ?_⟩
  · calc 2 * ((halve (t.u + t.v) p : K) * (α - β)) = t.u * (α - β) * (α + β) + t.v * (α - β) := by
          rw [← mul_assoc, cast_halve hodd, hsum]
          push_cast
          ring
      _ = 2 * (α ^ (k + 1) - β ^ (k + 1)) := by
          rw [h.u_mul_sub, h.v_eq]
          ring
  · calc 2 * (halve (d * t.u + t.v) p : K) = t.u * (α - β) * (α - β) + t.v * (α + β) := by
          rw [cast_halve hodd, Nat.cast_add, Nat.cast_mul, hd, hsum]
          ring
      _ = 2 * (α ^ (k + 1) + β ^ (k + 1)) := by
          rw [h.u_mul_sub, h.v_eq]
          ring
  · calc ((t.q * q % p : Nat) : K) = t.q * q := by rw [cast_mod, Nat.cast_mul]
      _ = (α * β) ^ (k + 1) := by rw [h.q_eq, hq, pow_succ]

end IsLucasTerm

/-- **The terms by powers of `α` and `β`**, the roots of `X² - X + q`. -/
theorem isLucasTerm_lucasTerm (hodd : p % 2 = 1) (htwo : (2 : K) ≠ 0) (hsum : α + β = 1)
    (hd : (d : K) = (α - β) ^ 2) (hq : (q : K) = α * β) (k : Nat) :
    IsLucasTerm p α β k (lucasTerm p d q k) := by
  induction k using lucasTerm.induct p d q with
  | case1 =>
    rw [lucasTerm, if_pos rfl]
    exact IsLucasTerm.zero (by omega)
  | case2 k hk heven ih =>
    rw [lucasTerm, if_neg hk]
    dsimp only
    rw [if_pos heven]
    have hdouble := ih.double
    rwa [Nat.mul_div_cancel' (by omega)] at hdouble
  | case3 k hk heven ih =>
    rw [lucasTerm, if_neg hk]
    dsimp only
    rw [if_neg heven]
    have hnext := ih.double.next hodd htwo hsum hd hq
    rwa [show 2 * (k / 2) + 1 = k by omega] at hnext

/-- Where the powers are opposite, `V` is zero. -/
theorem doublesToZero_of_pow_eq (h : IsLucasTerm p α β k t) {count i : Nat} (hi : i < count)
    (hpow : (α ^ k) ^ 2 ^ i = -(β ^ k) ^ 2 ^ i) : doublesToZero p count t = true := by
  induction count generalizing k t i with
  | zero => exact absurd hi (Nat.not_lt_zero i)
  | succ count ih =>
    rw [doublesToZero, Bool.or_eq_true]
    cases i with
    | zero =>
      rw [Nat.pow_zero, pow_one, pow_one] at hpow
      have hzero : (t.v : K) = 0 := by rw [h.v_eq, hpow, neg_add_cancel]
      exact Or.inl (beq_iff_eq.mpr ((cast_eq_zero_iff_of_lt h.v_lt).mp hzero))
    | succ i =>
      refine Or.inr (ih h.double (Nat.lt_of_succ_lt_succ hi) ?_)
      rw [← pow_mul, ← pow_mul] at hpow ⊢
      rwa [show 2 * k * 2 ^ i = k * 2 ^ (i + 1) by ring]

end

/-! ## The Lucas test -/

section

variable {p : Nat} {d : Int}

/-- **Raising to the power `p` turns the sign of a root of no square**, by Euler's criterion. -/
theorem pow_eq_neg_of_jacobiSym [Fact p.Prime] {K : Type*} [Field K] [CharP K p] (hodd : p % 2 = 1)
    (hd : J(d | p) = -1) {δ : K} (hroot : δ ^ 2 = d) : δ ^ p = -δ := by
  have heuler : ((d ^ (p / 2) + 1 : Int) : ZMod p) = 0 := by
    have hpow := legendreSym.eq_pow p d
    rw [jacobiSym.legendreSym.to_jacobiSym, hd] at hpow
    push_cast at hpow ⊢
    rw [← hpow, neg_add_cancel]
  have hminus : (d : K) ^ (p / 2) = -1 := by
    rw [ZMod.intCast_zmod_eq_zero_iff_dvd, ← CharP.intCast_eq_zero_iff K p] at heuler
    push_cast at heuler
    exact eq_neg_of_add_eq_zero_left heuler
  calc δ ^ p = (δ ^ 2) ^ (p / 2) * δ := by rw [← pow_mul, ← pow_succ, show 2 * (p / 2) + 1 = p by omega]
    _ = -δ := by rw [hroot, hminus, neg_one_mul]

/-- The roots of `X² - X + q` in a larger field. Raising to the power `p` exchanges them. -/
theorem exists_roots [Fact p.Prime] (hodd : p % 2 = 1) (hd : J(d | p) = -1) :
    ∃ α β : AlgebraicClosure (ZMod p), α + β = 1 ∧ (α - β) ^ 2 = d ∧ α ≠ β ∧ α ^ p = β ∧ β ^ p = α := by
  have htwo : (2 : AlgebraicClosure (ZMod p)) ≠ 0 := two_ne_zero_of_odd Fact.out hodd
  obtain ⟨δ, hroot⟩ := IsAlgClosed.exists_pow_nat_eq (d : AlgebraicClosure (ZMod p)) Nat.two_pos
  have hfrobenius : frobenius (AlgebraicClosure (ZMod p)) p δ = -δ := pow_eq_neg_of_jacobiSym hodd hd hroot
  have hne : δ ≠ 0 := by
    rintro rfl
    rw [zero_pow (by decide), eq_comm, CharP.intCast_eq_zero_iff _ p, ← ZMod.intCast_zmod_eq_zero_iff_dvd,
      ← legendreSym.eq_zero_iff, jacobiSym.legendreSym.to_jacobiSym, hd] at hroot
    exact absurd hroot (by decide)
  have hsub : (1 + δ) / 2 - (1 - δ) / 2 = δ := by
    field_simp
    ring
  refine ⟨(1 + δ) / 2, (1 - δ) / 2, ?_, ?_, ?_, ?_, ?_⟩
  · field_simp
    ring
  · rw [hsub, hroot]
  · rw [← sub_ne_zero, hsub]
    exact hne
  · rw [← frobenius_def, map_div₀, map_add, map_one, map_ofNat, hfrobenius, ← sub_eq_add_neg]
  · rw [← frobenius_def, map_div₀, map_sub, map_one, map_ofNat, hfrobenius, sub_neg_eq_add]

/-- **An odd prime passes the Lucas test.** -/
theorem isStrongLucasProbablePrime_of_prime (hp : p.Prime) (hodd : p % 2 = 1) :
    isStrongLucasProbablePrime p = true := by
  have : Fact p.Prime := ⟨hp⟩
  obtain ⟨j, hj, hfind⟩ := exists_jacobiSym_discriminant hp hodd
  obtain ⟨i, hsearch, hd⟩ := exists_discriminantFrom_eq hp hodd (Nat.zero_le j) (by rwa [Nat.zero_add]) hfind
  obtain ⟨q, hq⟩ := exists_discriminant_eq i
  obtain ⟨α, β, hsum, hdiff, hne, hα, hβ⟩ := exists_roots hodd hd
  have htwo : (2 : AlgebraicClosure (ZMod p)) ≠ 0 := two_ne_zero_of_odd hp hodd
  have hmul : (q : AlgebraicClosure (ZMod p)) = α * β := by
    refine mul_left_cancel₀ (mul_ne_zero htwo htwo) ?_
    calc 2 * 2 * (q : AlgebraicClosure (ZMod p)) = 1 - (discriminant i : Int) := by
          rw [hq]
          push_cast
          ring
      _ = (α + β) ^ 2 - (α - β) ^ 2 := by rw [hsum, hdiff, one_pow]
      _ = 2 * 2 * (α * β) := by ring
  have hparts := two_pow_mul_oddPart (p + 1)
  rcases hodds : oddPart (p + 1) with ⟨s, k⟩
  rw [hodds] at hparts
  have hterm := isLucasTerm_lucasTerm hodd htwo hsum (d := (discriminant i % p).toNat)
    (q := (q % p).toNat) (by rw [cast_toNat_emod hp.pos, hdiff]) (by rw [cast_toNat_emod hp.pos, hmul]) k
  -- both numbers have the same power with exponent `p + 1`
  have hpow : (α ^ k) ^ 2 ^ s = (β ^ k) ^ 2 ^ s := by
    rw [← pow_mul, ← pow_mul, Nat.mul_comm, hparts, pow_succ, pow_succ, hα, hβ, mul_comm]
  rw [isStrongLucasProbablePrime, hsearch, hodds]
  dsimp only
  rw [show (1 - discriminant i) / 4 = q by omega, Bool.or_eq_true]
  rcases eq_or_exists_eq_neg hpow with hroot | ⟨r, hr, hroot⟩
  · have hzero : ((lucasTerm p (discriminant i % p).toNat (q % p).toNat k).u : AlgebraicClosure (ZMod p)) = 0 := by
      have hprod := hterm.u_mul_sub
      rw [hroot, sub_self] at hprod
      exact (mul_eq_zero.mp hprod).resolve_right (sub_ne_zero.mpr hne)
    exact Or.inl (beq_iff_eq.mpr ((cast_eq_zero_iff_of_lt hterm.u_lt).mp hzero))
  · exact Or.inr (doublesToZero_of_pow_eq hterm hr hroot)

/-- **Every prime passes both tests.** -/
theorem isPrime_of_prime (hp : p.Prime) : isPrime p = true := by
  rw [isPrime, if_neg (Nat.not_lt.mpr hp.two_le)]
  rcases hp.eq_two_or_odd with rfl | hodd
  · rfl
  · rw [if_neg (by omega), isStrongProbablePrime_two hp hodd, isStrongLucasProbablePrime_of_prime hp hodd,
      Bool.and_self]

end

end Paillier
