import Mathlib.Data.Int.ModEq
import Paillier.Proofs.Number.Denotation

/-!
# What the operations on residues compute

Each operation has one lemma that gives its result as a natural number. The operands only have to be free of
a minus, which the range checks make sure of; the modulus has to be odd. Only inverses are taken of numbers that
were not checked, so their lemma has a second form for either sign.

## Main statements

* `inverseMod?_eq_some` — Euclid's algorithm finds the inverse of every number that is coprime to the modulus.
* `Residue.mul_eq`, `Residue.add_eq`, `Residue.pow_eq`, `Residue.inverse?_eq_some` — the four operations.
* `Residue.inverse?_ofInt` — the inverse of an integer modulo an integer.
-/

namespace Paillier

/-! ## Euclid's algorithm -/

/--
**The coefficient that is followed gives the greatest common divisor.**

Both remainders stay multiples of `a` modulo `n`, with the coefficients beside them; a division step
takes the same multiple of the second from the first on either side.
-/
theorem bezout_modEq {a n : Nat} {r₀ r₁ : Nat} {s₀ s₁ : Int} (h₀ : s₀ * a ≡ r₀ [ZMOD n])
    (h₁ : s₁ * a ≡ r₁ [ZMOD n]) : bezout r₀ r₁ s₀ s₁ * a ≡ Nat.gcd r₀ r₁ [ZMOD n] := by
  induction r₀, r₁, s₀, s₁ using bezout.induct with
  | case1 r₀ s₀ s₁ =>
    rw [bezout, if_pos rfl, Nat.gcd_zero_right]
    exact h₀
  | case2 r₀ r₁ s₀ s₁ hr ih =>
    have hgcd : Nat.gcd r₁ (r₀ % r₁) = Nat.gcd r₀ r₁ := by
      rw [Nat.gcd_comm, ← Nat.gcd_rec, Nat.gcd_comm]
    have hstep : ((r₀ % r₁ : Nat) : Int) = r₀ - (r₀ / r₁ : Nat) * r₁ := by
      rw [Int.natCast_mod, Int.emod_def, Int.natCast_div, Int.mul_comm]
    rw [bezout, if_neg hr, ← hgcd]
    refine ih h₁ ?_
    rw [hstep, Int.sub_mul, Int.mul_assoc]
    exact h₀.sub (h₁.mul_left _)

/-- **A number that is coprime to the modulus has an inverse, and it is found.** -/
theorem inverseMod?_eq_some {a n : Nat} (hn : 0 < n) (h : Nat.gcd a n = 1) :
    ∃ i, inverseMod? a n = some i ∧ i < n ∧ a * i ≡ 1 [MOD n] := by
  have hn' : (0 : Int) < n := by omega
  have hgcd : Nat.gcd n (a % n) = 1 := by rw [Nat.gcd_comm, ← Nat.gcd_rec, Nat.gcd_comm, h]
  have h₀ : 0 * (a : Int) ≡ n [ZMOD n] := by
    rw [Int.zero_mul]
    exact (Int.modEq_zero_iff_dvd.mpr (Int.dvd_refl _)).symm
  have h₁ : 1 * (a : Int) ≡ (a % n : Nat) [ZMOD n] := by
    rw [Int.one_mul, Int.natCast_mod]
    exact (Int.mod_modEq _ _).symm
  have hkey : bezout n (a % n) 0 1 * a ≡ 1 [ZMOD n] := by
    have hbezout := bezout_modEq h₀ h₁
    rwa [hgcd] at hbezout
  have hcast : ((bezout n (a % n) 0 1 % n).toNat : Int) = bezout n (a % n) 0 1 % n :=
    Int.toNat_of_nonneg (Int.emod_nonneg _ (by omega))
  refine ⟨_, if_pos ⟨hn, h⟩, ?_, ?_⟩
  · have := Int.emod_lt_of_pos (bezout n (a % n) 0 1) hn'
    omega
  · rw [← Int.natCast_modEq_iff, Int.natCast_mul, hcast, Int.mul_comm]
    exact ((Int.mod_modEq _ n).mul_right _).trans hkey

/-! ## Operations on numbers -/

theorem Number.toInt_of_ne_minus {a : Number} (h : a.sign ≠ .minus) : a.toInt = a.magnitude := if_neg h

theorem Number.sign_ne_minus_of_eq_plus {a : Number} (h : a.sign = .plus) : a.sign ≠ .minus := by
  simp [h]

theorem Sign.mul_ne_minus {s t : Sign} (hs : s ≠ .minus) (ht : t ≠ .minus) : s * t ≠ .minus := by
  cases s <;> cases t <;> simp_all [HMul.hMul, Mul.mul, Sign.mul]

namespace Residue

variable {a b e n : Number}

theorem settled_of_ne_minus {sign : Sign} (h : sign ≠ .minus) (residue modulus : Nat) :
    settled sign residue modulus = residue := if_neg h

theorem mul_eq (ha : a.sign ≠ .minus) (hb : b.sign ≠ .minus) (hn : n.magnitude % 2 = 1) :
    mul a b n = .ok (a.magnitude * b.magnitude % n.magnitude : Nat) := by
  rw [mul, if_neg (by omega)]
  dsimp only
  rw [settled_of_ne_minus (Sign.mul_ne_minus ha hb)]

theorem add_eq (ha : a.sign ≠ .minus) (hb : b.sign ≠ .minus) :
    add a b n = ((a.magnitude + b.magnitude) % n.magnitude : Nat) := by
  rw [add, Number.toInt_of_ne_minus ha, Number.toInt_of_ne_minus hb]
  rfl

theorem pow_eq (ha : a.sign ≠ .minus) (he : e.sign ≠ .minus) (hn : n.magnitude % 2 = 1) :
    pow a e n = .ok (a.magnitude ^ e.magnitude % n.magnitude : Nat) := by
  have hbase : (a.toInt % n.magnitude).toNat = a.magnitude % n.magnitude := by
    rw [Number.toInt_of_ne_minus ha]
    rfl
  rw [pow, if_neg (by omega), if_neg he, hbase, powMod_eq, ← Nat.pow_mod]

/-- Modulo a number above one zero is no inverse. -/
theorem inverseMod?_eq_some_pos {k n : Nat} (hn : 1 < n) (h : Nat.gcd k n = 1) :
    ∃ i, inverseMod? k n = some i ∧ 1 ≤ i ∧ i < n ∧ k * i ≡ 1 [MOD n] := by
  obtain ⟨i, hi, hlt, hmul⟩ := inverseMod?_eq_some (by omega) h
  have hpos : 0 < i := by
    rcases Nat.eq_zero_or_pos i with hz | hz
    · rw [hz, Nat.mul_zero, Nat.ModEq, Nat.zero_mod, Nat.mod_eq_of_lt hn] at hmul
      omega
    · exact hz
  exact ⟨i, hi, hpos, hlt, hmul⟩

theorem inverse?_eq_map (ha : a.sign ≠ .none) (hsign : n.sign ≠ .none) (hn : n.magnitude ≠ 1) :
    inverse? a n = (inverseMod? a.magnitude n.magnitude).map (.withSign a.sign) := by
  have hone : n ≠ 1 := fun hc => hn (congrArg Number.magnitude hc)
  rw [inverse?, if_neg (by tauto)]

/-- Modulo a number without a sign nothing has an inverse. -/
theorem inverse?_eq_none (hn : n.sign = .none) : inverse? a n = none := if_pos (Or.inr (Or.inl hn))

/-- A number that is coprime to the modulus has its inverse in `[1, n)`. -/
theorem inverse?_eq_some {k n : Nat} (hn : 1 < n) (h : Nat.gcd k n = 1) :
    ∃ i, inverse? (.positive k) (.positive n) = some (.positive i) ∧ 1 ≤ i ∧ i < n ∧
      k * i ≡ 1 [MOD n] := by
  obtain ⟨i, hi, hpos, hlt, hmul⟩ := inverseMod?_eq_some_pos hn h
  refine ⟨i, ?_, hpos, hlt, hmul⟩
  rw [inverse?_eq_map (by simp [Number.positive]) (by simp [Number.positive]) (Nat.ne_of_gt hn)]
  show (inverseMod? k n).map _ = _
  rw [hi, Option.map_some, Number.withSign_of_ne_zero _ (by omega)]
  rfl

/-- **With either sign the inverse is one of integers.** It has the sign of the number that is inverted. -/
theorem inverse?_ofInt {l n : Int} (hn : 1 < n.natAbs) (h : Nat.gcd l.natAbs n.natAbs = 1) :
    ∃ i : Int, inverse? (.ofInt l) (.ofInt n) = some (.ofInt i) ∧ 1 ≤ i.natAbs ∧ i.natAbs < n.natAbs ∧
      (0 < i ↔ 0 < l) ∧ l * i ≡ 1 [ZMOD n] := by
  obtain ⟨i, hi, hpos, hlt, hmul⟩ := inverseMod?_eq_some_pos hn h
  -- a number without a magnitude would have all of the modulus in common with it
  have hne : l ≠ 0 := by
    rintro rfl
    rw [Int.natAbs_zero, Nat.gcd_zero_left] at h
    omega
  have hmap : inverse? (.ofInt l) (.ofInt n) = some (.withSign (Number.ofInt l).sign i) := by
    rw [inverse?_eq_map (Number.ofInt_sign_ne_none hne) (Number.ofInt_sign_ne_none (by omega))
      (by rw [Number.magnitude_ofInt]; omega), Number.magnitude_ofInt, Number.magnitude_ofInt, hi]
    rfl
  have hcast : (l.natAbs : Int) * i ≡ 1 [ZMOD n] := by
    have hmod := Int.natCast_modEq_iff.mpr hmul
    rw [Int.modEq_iff_dvd, Int.natAbs_dvd] at hmod
    exact_mod_cast Int.modEq_iff_dvd.mpr hmod
  rw [Number.withSign_of_ne_zero _ (by omega)] at hmap
  rcases Int.lt_or_gt_of_ne hne with hneg | hpos
  · refine ⟨-i, ?_, by omega, by omega, by omega, ?_⟩
    · rw [hmap, Number.ofInt_of_neg hneg, Number.ofInt_of_neg (by omega), Int.natAbs_neg, Int.natAbs_natCast]
      rfl
    · rwa [Int.mul_neg, ← Int.neg_mul, ← Int.ofNat_natAbs_of_nonpos (Int.le_of_lt hneg)]
  · refine ⟨i, ?_, by omega, by omega, by omega, ?_⟩
    · rw [hmap, Number.ofInt_of_pos hpos, Number.ofInt_of_pos (by omega), Int.natAbs_natCast]
      rfl
    · rwa [Int.natAbs_of_nonneg (Int.le_of_lt hpos)] at hcast

end Residue

end Paillier
