import Mathlib.Tactic.Ring
import Paillier.Key.Private
import Paillier.Proofs.Number.Denotation

/-!
# Arithmetic on numbers that have a sign

Sums, differences and products of numbers with a plus are those of natural numbers, as long as they can be held
and a difference is taken from the larger number. Where a minus is allowed, they are those of integers, as long as no
operand is zero.

## Main statements

* `totient_positive` — the number `n - p - q + 1` is `(p - 1) * (q - 1)`.
* `totient_ofInt`, `eq_of_totient_ofInt` — whatever the signs of `p` and `q` are.
-/

namespace Paillier

open Number (positive ofInt)

theorem positive_sign_ne_none (x : Nat) : (positive x).sign ≠ .none := by
  simp [positive]

theorem bounded_eq_ok_iff {a b : Number} : bounded a = .ok b ↔ Fits a ∧ a = b := by
  by_cases h : Fits a
  · simp [bounded, h]
  · simp [bounded, h, fault]

theorem bounded_ofNat {x : Nat} (h : x < 2 ^ capacityBits) : bounded x = .ok x :=
  bounded_eq_ok (fits_iff.mpr (by rwa [Number.magnitude_ofNat]))

theorem product_positive {x y : Nat} (h : x * y < 2 ^ capacityBits) :
    product (positive x) (positive y) = .ok (positive (x * y)) := bounded_eq_ok (fits_iff.mpr h)

theorem difference_positive {x y : Nat} (hle : y ≤ x) (h : x < 2 ^ capacityBits) :
    difference (positive x) (positive y) = .ok (x - y : Nat) := by
  have hint : (positive x).toInt - (positive y).toInt = (x - y : Nat) := by
    show (x : Int) - y = (x - y : Nat)
    omega
  rw [difference_eq (positive_sign_ne_none x) (positive_sign_ne_none y), hint, Number.ofInt_natCast]
  exact bounded_ofNat (Nat.lt_of_le_of_lt (Nat.sub_le x y) h)

theorem sum_positive {x y : Nat} (h : x + y < 2 ^ capacityBits) :
    sum (positive x) (positive y) = .ok (x + y : Nat) := by
  have hint : (positive x).toInt + (positive y).toInt = (x + y : Nat) := by
    show (x : Int) + y = (x + y : Nat)
    omega
  rw [sum_eq (positive_sign_ne_none x) (positive_sign_ne_none y), hint, Number.ofInt_natCast]
  exact bounded_ofNat h

/-- **The number `n - p - q + 1` is `(p - 1) * (q - 1)`.** No difference on the way is zero. -/
theorem totient_positive {p q : Nat} (hp : 3 ≤ p) (hq : 3 ≤ q) (h : p * q < 2 ^ capacityBits) :
    totient (positive (p * q)) (positive p) (positive q) = .ok (positive ((p - 1) * (q - 1))) := by
  -- with x + 3 and y + 3 for p and q every difference is a sum
  obtain ⟨x, rfl⟩ := Nat.exists_eq_add_of_le' hp
  obtain ⟨y, rfl⟩ := Nat.exists_eq_add_of_le' hq
  have hn : (x + 3) * (y + 3) = x * y + 3 * x + 3 * y + 9 := by ring
  have hphi : (x + 2) * (y + 2) = x * y + 2 * x + 2 * y + 4 := by ring
  show totient _ _ _ = .ok (positive ((x + 2) * (y + 2)))
  rw [hphi]
  rw [hn] at h ⊢
  rw [totient, difference_positive (by omega) h, ok_bind, Number.ofNat_of_pos (by omega),
    difference_positive (by omega) (by omega), ok_bind, Number.ofNat_of_pos (by omega),
    show (1 : Number) = positive 1 from rfl, sum_positive (by omega), Number.ofNat_of_pos (by omega)]
  congr 2
  omega

/-! ## Either sign -/

section

variable {x y z : Int}

/-- A number with a sign and a magnitude is the plain form of an integer. -/
theorem exists_eq_ofInt {a : Number} (hsign : a.sign ≠ .none) (hzero : a.magnitude ≠ 0) :
    ∃ x : Int, a = ofInt x :=
  ⟨a.toInt, (Number.ofInt_toInt (iff_of_false hsign hzero)).symm⟩

theorem bounded_ofInt (h : z.natAbs < 2 ^ capacityBits) : bounded (ofInt z) = .ok (ofInt z) :=
  bounded_eq_ok (fits_iff.mpr (by rwa [Number.magnitude_ofInt]))

theorem ofInt_mul (hx : x ≠ 0) (hy : y ≠ 0) :
    ofInt (x * y) = ⟨(ofInt x).sign * (ofInt y).sign, (ofInt x).magnitude * (ofInt y).magnitude⟩ := by
  rw [Number.magnitude_ofInt, Number.magnitude_ofInt, ← Int.natAbs_mul]
  rcases Int.lt_or_gt_of_ne hx with hx | hx <;> rcases Int.lt_or_gt_of_ne hy with hy | hy
  · rw [Number.ofInt_of_neg hx, Number.ofInt_of_neg hy, Number.ofInt_of_pos (Int.mul_pos_of_neg_of_neg hx hy)]
    rfl
  · rw [Number.ofInt_of_neg hx, Number.ofInt_of_pos hy, Number.ofInt_of_neg (Int.mul_neg_of_neg_of_pos hx hy)]
    rfl
  · rw [Number.ofInt_of_pos hx, Number.ofInt_of_neg hy, Number.ofInt_of_neg (Int.mul_neg_of_pos_of_neg hx hy)]
    rfl
  · rw [Number.ofInt_of_pos hx, Number.ofInt_of_pos hy, Number.ofInt_of_pos (Int.mul_pos hx hy)]
    rfl

theorem product_ofInt (hx : x ≠ 0) (hy : y ≠ 0) : product (ofInt x) (ofInt y) = bounded (ofInt (x * y)) := by
  rw [product, ofInt_mul hx hy]

theorem difference_ofInt (hx : x ≠ 0) (hy : y ≠ 0) :
    difference (ofInt x) (ofInt y) = bounded (ofInt (x - y)) := by
  rw [difference_eq (Number.ofInt_sign_ne_none hx) (Number.ofInt_sign_ne_none hy), Number.toInt_ofInt, Number.toInt_ofInt]

theorem sum_ofInt (hx : x ≠ 0) (hy : y ≠ 0) : sum (ofInt x) (ofInt y) = bounded (ofInt (x + y)) := by
  rw [sum_eq (Number.ofInt_sign_ne_none hx) (Number.ofInt_sign_ne_none hy), Number.toInt_ofInt, Number.toInt_ofInt]

/-- Neither difference on the way to `(x - 1) * (y - 1)` is zero. -/
theorem differences_ne_zero (hx : 3 ≤ x.natAbs) (hy : 3 ≤ y.natAbs) : x * y - x ≠ 0 ∧ x * y - x - y ≠ 0 := by
  have hfactors : 2 * 2 ≤ (x - 1).natAbs * (y - 1).natAbs := Nat.mul_le_mul (by omega) (by omega)
  have hexpand : (x - 1) * (y - 1) = x * y - x - y + 1 := by ring
  rw [← Int.natAbs_mul, hexpand] at hfactors
  constructor
  · intro hzero
    have hfactor : x * (y - 1) = 0 := by
      rw [← hzero]
      ring
    rcases Int.mul_eq_zero.mp hfactor with h | h <;> omega
  · omega

/-- **The number `n - p - q + 1` is `(p - 1) * (q - 1)` with either sign.** -/
theorem totient_ofInt (hx : 3 ≤ x.natAbs) (hy : 3 ≤ y.natAbs)
    (h : 4 * (x.natAbs * y.natAbs) < 2 ^ capacityBits) :
    totient (ofInt (x * y)) (ofInt x) (ofInt y) = .ok (ofInt ((x - 1) * (y - 1))) := by
  obtain ⟨hfirst, hsecond⟩ := differences_ne_zero hx hy
  have hne : x * y ≠ 0 := Int.mul_ne_zero (by omega) (by omega)
  have habs : (x * y).natAbs = x.natAbs * y.natAbs := Int.natAbs_mul x y
  have hxle : x.natAbs ≤ x.natAbs * y.natAbs := Nat.le_mul_of_pos_right _ (by omega)
  have hyle : y.natAbs ≤ x.natAbs * y.natAbs := Nat.le_mul_of_pos_left _ (by omega)
  rw [totient, difference_ofInt hne (by omega), bounded_ofInt (by omega), ok_bind,
    difference_ofInt hfirst (by omega), bounded_ofInt (by omega), ok_bind, show (1 : Number) = ofInt 1 from rfl,
    sum_ofInt hsecond (by decide), bounded_ofInt (by omega)]
  congr 2
  ring

/-- No other value comes out, wherever the bound is. -/
theorem eq_of_totient_ofInt (hx : 3 ≤ x.natAbs) (hy : 3 ≤ y.natAbs) {lambda : Number}
    (h : totient (ofInt (x * y)) (ofInt x) (ofInt y) = .ok lambda) : lambda = ofInt ((x - 1) * (y - 1)) := by
  obtain ⟨hfirst, hsecond⟩ := differences_ne_zero hx hy
  have hne : x * y ≠ 0 := Int.mul_ne_zero (by omega) (by omega)
  obtain ⟨withoutP, hp, h⟩ := bind_eq_ok.mp h
  rw [difference_ofInt hne (by omega)] at hp
  obtain ⟨-, rfl⟩ := bounded_eq_ok_iff.mp hp
  obtain ⟨withoutBoth, hq, h⟩ := bind_eq_ok.mp h
  rw [difference_ofInt hfirst (by omega)] at hq
  obtain ⟨-, rfl⟩ := bounded_eq_ok_iff.mp hq
  rw [show (1 : Number) = ofInt 1 from rfl, sum_ofInt hsecond (by decide)] at h
  obtain ⟨-, rfl⟩ := bounded_eq_ok_iff.mp h
  congr 1
  ring

end

/-! ## Without a sign -/

section

variable {a b n : Number}

theorem difference_of_signless_right (hb : b.sign = .none) : difference a b = .ok a := if_pos hb

theorem difference_of_signless_left (ha : a.sign = .none) (hb : b.sign ≠ .none) : difference a b = .ok b := by
  rw [difference, if_neg hb, if_pos ha]

theorem exists_sum_one (h : a.sign = .none ∨ a.magnitude + 1 < 2 ^ capacityBits) : ∃ s, sum a 1 = .ok s := by
  have hone : ¬ (1 : Number).sign = .none := by decide
  by_cases ha : a.sign = .none
  · refine ⟨1, ?_⟩
    rw [sum, if_neg hone, if_pos ha]
  · have hsize : (a.toInt + (1 : Number).toInt).natAbs < 2 ^ capacityBits := by
      refine Nat.lt_of_le_of_lt ?_ (h.resolve_left ha)
      rw [show (1 : Number).toInt = 1 from rfl, Number.toInt]
      split <;> omega
    refine ⟨ofInt (a.toInt + (1 : Number).toInt), ?_⟩
    rw [sum_eq ha hone, bounded_ofInt hsize]

/-- **A number without a sign does not count**, so `n - p - q` is one of the three numbers as it stands. -/
theorem exists_totient_of_signless (hn : n.sign = .none) (hsign : a.sign = .none ∨ b.sign = .none)
    (ha : a.magnitude + 1 < 2 ^ capacityBits) (hb : b.magnitude + 1 < 2 ^ capacityBits) :
    ∃ lambda, totient n a b = .ok lambda := by
  by_cases hleft : a.sign = .none
  · by_cases hright : b.sign = .none
    · rw [totient, difference_of_signless_right hleft, ok_bind, difference_of_signless_right hright, ok_bind]
      exact exists_sum_one (.inl hn)
    · rw [totient, difference_of_signless_right hleft, ok_bind, difference_of_signless_left hn hright, ok_bind]
      exact exists_sum_one (.inr hb)
  · have hright := hsign.resolve_left hleft
    rw [totient, difference_of_signless_left hn hleft, ok_bind, difference_of_signless_right hright, ok_bind]
    exact exists_sum_one (.inr ha)

end

end Paillier
