import Paillier.Number.BigEndian

/-!
# Numbers

A number is a magnitude with a sign beside it: minus, plus or none. A number is *plain* if it has no sign
when it is zero and one when it is not. Plain numbers are the integers, in their order.

What comes from outside brings its own sign along. A magnitude that was read from bytes or digits has one
even if it is zero, and a form that spells the sign out may leave it away in front of any magnitude. Such a
number is taken as it is: its sign decides how it compares, and two numbers are equal only if
signs and magnitudes are.

## Main statements

* `toInt_ofInt`, `ofInt_toInt` — plain numbers are the integers.
* `lt_iff`, `le_iff` — and have their order.
-/

namespace Paillier

/-! ## Signs -/

/-- What stands in front of a magnitude. -/
inductive Sign where
  | minus
  | none
  | plus
deriving DecidableEq, Repr

namespace Sign

/-- The sign of a product: a factor without a sign takes it away. -/
def mul : Sign → Sign → Sign
  | none, _ => none
  | _, none => none
  | plus, s => s
  | minus, plus => minus
  | minus, minus => plus

instance : Mul Sign := ⟨mul⟩

end Sign

/-! ## Numbers -/

/-- A magnitude and its sign. -/
structure Number where
  sign : Sign
  magnitude : Nat
deriving DecidableEq, Repr

namespace Number

/-- A magnitude with a plus, even if it is zero. -/
def positive (n : Nat) : Number := ⟨.plus, n⟩

/-- A magnitude with a minus, even if it is zero. -/
def negative (n : Nat) : Number := ⟨.minus, n⟩

/-- A magnitude with the given sign; zero has none. -/
def withSign (sign : Sign) (n : Nat) : Number := if n = 0 then ⟨.none, 0⟩ else ⟨sign, n⟩

/-- The plain form of a natural number. -/
def ofNat (n : Nat) : Number := withSign .plus n

/-- The plain form of an integer. -/
def ofInt (a : Int) : Number := withSign (if a < 0 then .minus else .plus) a.natAbs

instance : Coe Nat Number := ⟨ofNat⟩

instance (n : Nat) : OfNat Number n := ⟨ofNat n⟩

/-- The value as an integer; without a sign it is the magnitude. -/
def toInt (a : Number) : Int := if a.sign = .minus then -a.magnitude else a.magnitude

/-- Whether the number is zero, whatever its sign. -/
def isZero (a : Number) : Bool := a.magnitude == 0

/-- The number has a sign iff it is not zero. -/
def IsPlain (a : Number) : Prop := a.sign = .none ↔ a.magnitude = 0

instance (a : Number) : Decidable a.IsPlain := inferInstanceAs (Decidable (_ ↔ _))

/-! ## Order -/

/--
Whether `a` comes before `b`: the signs decide first, minus before none before plus; then the magnitudes,
which count backwards after a minus and do not count without a sign.
-/
def before (a b : Number) : Bool :=
  match a.sign, b.sign with
  | .minus, .minus => decide (b.magnitude < a.magnitude)
  | .minus, _ => true
  | .none, .plus => true
  | .plus, .plus => decide (a.magnitude < b.magnitude)
  | _, _ => false

instance : LT Number := ⟨fun a b => before a b = true⟩

instance : LE Number := ⟨fun a b => before b a = false⟩

instance (a b : Number) : Decidable (a < b) := inferInstanceAs (Decidable (before a b = true))

instance (a b : Number) : Decidable (a ≤ b) := inferInstanceAs (Decidable (before b a = false))

/-! ## Plain numbers are integers -/

@[simp] theorem magnitude_withSign (sign : Sign) (n : Nat) : (withSign sign n).magnitude = n := by
  unfold withSign
  split <;> simp_all

@[simp] theorem magnitude_ofNat (n : Nat) : (ofNat n).magnitude = n := magnitude_withSign _ n

@[simp] theorem magnitude_ofInt (a : Int) : (ofInt a).magnitude = a.natAbs := magnitude_withSign _ _

@[simp] theorem magnitude_literal (n : Nat) : (OfNat.ofNat n : Number).magnitude = n := magnitude_ofNat n

theorem withSign_of_ne_zero (sign : Sign) {n : Nat} (h : n ≠ 0) : withSign sign n = ⟨sign, n⟩ := if_neg h

theorem ofNat_of_pos {n : Nat} (h : 0 < n) : ofNat n = positive n :=
  withSign_of_ne_zero _ (Nat.ne_of_gt h)

theorem ofInt_natCast (n : Nat) : ofInt n = ofNat n := by
  rw [ofInt, if_neg (by omega), Int.natAbs_natCast, ofNat]

theorem isPlain_withSign {sign : Sign} (h : sign ≠ .none) (n : Nat) : (withSign sign n).IsPlain := by
  unfold withSign IsPlain
  split
  · simp
  · next hn => exact ⟨fun hs => absurd hs h, fun hz => absurd hz hn⟩

theorem isPlain_ofNat (n : Nat) : (ofNat n).IsPlain := isPlain_withSign (by decide) n

theorem isPlain_ofInt (a : Int) : (ofInt a).IsPlain := by
  unfold ofInt
  split <;> exact isPlain_withSign (by decide) _

/-- The plain form of an integer has its value. -/
@[simp] theorem toInt_ofInt (a : Int) : (ofInt a).toInt = a := by
  by_cases hzero : a = 0
  · rw [hzero]
    rfl
  · rw [ofInt, withSign_of_ne_zero _ (Int.natAbs_ne_zero.mpr hzero)]
    by_cases hneg : a < 0
    · rw [if_pos hneg]
      show -(a.natAbs : Int) = a
      omega
    · rw [if_neg hneg]
      show (a.natAbs : Int) = a
      omega

@[simp] theorem toInt_ofNat (n : Nat) : (ofNat n).toInt = n := by rw [← ofInt_natCast, toInt_ofInt]

/-- A plain number is the plain form of its value. -/
theorem ofInt_toInt {a : Number} (h : a.IsPlain) : ofInt a.toInt = a := by
  obtain ⟨sign, n⟩ := a
  unfold IsPlain at h
  unfold ofInt withSign toInt
  cases sign <;> simp_all

/-- Plain numbers are ordered by their values. -/
theorem lt_iff {a b : Number} (ha : a.IsPlain) (hb : b.IsPlain) : a < b ↔ a.toInt < b.toInt := by
  obtain ⟨s, m⟩ := a
  obtain ⟨t, n⟩ := b
  show before _ _ = true ↔ _
  unfold IsPlain at ha hb
  cases s <;> cases t <;> simp_all [before, toInt] <;> omega

/-- Plain numbers are ordered by their values. -/
theorem le_iff {a b : Number} (ha : a.IsPlain) (hb : b.IsPlain) : a ≤ b ↔ a.toInt ≤ b.toInt := by
  rw [← Int.not_lt, ← lt_iff hb ha]
  show before b a = false ↔ ¬ before b a = true
  simp

/-! ## Words -/

/-- The number as a 64-bit word, if it is one. -/
def toWord? (a : Number) : Option UInt64 := if a < 0 then none else wordOfMagnitude? a.magnitude

end Number

end Paillier
