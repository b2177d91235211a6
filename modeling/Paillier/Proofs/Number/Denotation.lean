import Paillier.Number.Residue

/-!
# The integer that a number is written for

An integer is written as its plain number. Zero has a second form: when it is read from bytes it carries a
plus. These are the forms in which plaintexts, scalars, ciphertexts and primes reach an operation, and all
that an operation looks at, the range checks included, depends on the integer alone. Any other number (a minus
in front of zero, a magnitude without a sign) is written for no integer.

## Main statements

* `Denotes.isResidue_iff`, `Denotes.isNonzeroResidue_iff` — the range checks compare integers.
* `Denotes.isCoprime_iff` — and coprimality is that of integers.
* `IsSigned.denotes` — only a minus in front of zero, or no sign at all, makes a number that is written for no integer.
-/

namespace Paillier

namespace Number

/-- The number is written for the integer `z`: it is the plain form of `z`, or a zero with a plus. -/
def Denotes (a : Number) (z : Int) : Prop := a = ofInt z ∨ a = positive 0 ∧ z = 0

@[simp] theorem magnitude_positive (n : Nat) : (positive n).magnitude = n := rfl

theorem denotes_ofNat (n : Nat) : (ofNat n).Denotes n := Or.inl (ofInt_natCast n).symm

/-- A magnitude that was read from bytes denotes itself. -/
theorem denotes_positive (n : Nat) : (positive n).Denotes n := by
  rcases Nat.eq_zero_or_pos n with h | h
  · exact Or.inr ⟨by rw [h], by rw [h]; rfl⟩
  · rw [← ofNat_of_pos h]
    exact denotes_ofNat n

theorem ofInt_of_pos {z : Int} (h : 0 < z) : ofInt z = positive z.natAbs := by
  rw [ofInt, if_neg (by omega), withSign_of_ne_zero _ (by omega), positive]

theorem ofInt_of_neg {z : Int} (h : z < 0) : ofInt z = negative z.natAbs := by
  rw [ofInt, if_pos h, withSign_of_ne_zero _ (by omega), negative]

theorem ofInt_sign_ne_none {z : Int} (h : z ≠ 0) : (ofInt z).sign ≠ .none := by
  intro hsign
  have hzero := (isPlain_ofInt z).mp hsign
  rw [magnitude_ofInt] at hzero
  omega

/-! ## Order, without an integer -/

/-- A minus comes before zero. -/
theorem sign_ne_minus_of_nonneg {a : Number} (h : 0 ≤ a) : a.sign ≠ .minus := by
  obtain ⟨sign, n⟩ := a
  rintro rfl
  exact Bool.noConfusion (show true = false from h)

/-- Only numbers with a plus reach one. -/
theorem exists_positive_of_one_le {a : Number} (h : 1 ≤ a) : ∃ n, 1 ≤ n ∧ a = positive n := by
  obtain ⟨sign, n⟩ := a
  cases sign with
  | minus => exact Bool.noConfusion (show true = false from h)
  | none => exact Bool.noConfusion (show true = false from h)
  | plus => exact ⟨n, Nat.not_lt.mp (of_decide_eq_false (show decide (n < 1) = false from h)), rfl⟩

theorem positive_lt_positive {m n : Nat} : positive m < positive n ↔ m < n := decide_eq_true_iff

namespace Denotes

variable {a : Number} {z : Int} {n : Nat}

theorem magnitude_eq (h : a.Denotes z) : a.magnitude = z.natAbs := by
  rcases h with rfl | ⟨rfl, rfl⟩
  · exact magnitude_ofInt z
  · rfl

theorem toInt_eq (h : a.Denotes z) : a.toInt = z := by
  rcases h with rfl | ⟨rfl, rfl⟩
  · exact toInt_ofInt z
  · rfl

theorem magnitude_natCast (h : a.Denotes n) : a.magnitude = n := by
  rw [h.magnitude_eq, Int.natAbs_natCast]

/-- A minus stands in front of negative integers only. -/
theorem sign_eq_minus_iff (h : a.Denotes z) : a.sign = .minus ↔ z < 0 := by
  rcases h with rfl | ⟨rfl, rfl⟩
  · rcases Int.lt_trichotomy z 0 with hz | hz | hz
    · simp [ofInt_of_neg hz, negative, hz]
    · rw [hz]
      decide
    · simp only [ofInt_of_pos hz, positive, reduceCtorEq, false_iff]
      omega
  · decide

theorem sign_ne_minus (h : a.Denotes n) : a.sign ≠ .minus := by
  rw [Ne, h.sign_eq_minus_iff]
  omega

/-- Positive integers have a single form. -/
theorem eq_positive (h : a.Denotes n) (hn : 0 < n) : a = positive n := by
  rcases h with rfl | ⟨-, hz⟩
  · rw [ofInt_natCast, ofNat_of_pos hn]
  · omega

/-! ## Range checks -/

theorem nonneg_iff (h : a.Denotes z) : 0 ≤ a ↔ 0 ≤ z := by
  rcases h with rfl | ⟨rfl, rfl⟩
  -- plain numbers are ordered like integers; the other zero is compared by computing
  · show ofNat 0 ≤ ofInt z ↔ 0 ≤ z
    rw [le_iff (isPlain_ofNat 0) (isPlain_ofInt z), toInt_ofInt]
    rfl
  · decide

theorem one_le_iff (h : a.Denotes z) : 1 ≤ a ↔ 1 ≤ z := by
  rcases h with rfl | ⟨rfl, rfl⟩
  · show ofNat 1 ≤ ofInt z ↔ 1 ≤ z
    rw [le_iff (isPlain_ofNat 1) (isPlain_ofInt z), toInt_ofInt]
    rfl
  · decide

theorem lt_positive_iff (h : a.Denotes z) (hn : 0 < n) : a < positive n ↔ z < n := by
  rcases h with rfl | ⟨rfl, rfl⟩
  · rw [← ofNat_of_pos hn, lt_iff (isPlain_ofInt z) (isPlain_ofNat n), toInt_ofInt, toInt_ofNat]
  · show decide (0 < n) = true ↔ (0 : Int) < n
    rw [decide_eq_true_iff]
    omega

/-- **Whether a number is a residue depends on the integer alone.** -/
theorem isResidue_iff (h : a.Denotes z) (hn : 0 < n) :
    isResidue a (positive n) = true ↔ 0 ≤ z ∧ z < n := by
  rw [Paillier.isResidue_iff, h.nonneg_iff, h.lt_positive_iff hn]

theorem isNonzeroResidue_iff (h : a.Denotes z) (hn : 0 < n) :
    isNonzeroResidue a (positive n) = true ↔ 1 ≤ z ∧ z < n := by
  rw [Paillier.isNonzeroResidue_iff, h.one_le_iff, h.lt_positive_iff hn]

theorem isCoprime_iff (h : a.Denotes z) (hn : 0 < n) :
    isCoprime a (positive n) = true ↔ Int.gcd z n = 1 := by
  rw [Paillier.isCoprime_iff hn, h.magnitude_eq]
  rfl

end Denotes

/-! ## Numbers that have a sign -/

/--
The number has a sign, unless it is zero.

Left out are the magnitudes above zero without a sign. They pass the range checks at any size (`isResidue_of_sign_none`)
and have no inverse, so nothing is said about them as ciphertexts.
-/
def IsSigned (a : Number) : Prop := a.sign = .none → a.magnitude = 0

instance (a : Number) : Decidable a.IsSigned := inferInstanceAs (Decidable (_ → _))

variable {a : Number} {z : Int} {n : Nat}

theorem Denotes.isSigned (h : a.Denotes z) : a.IsSigned := by
  rcases h with rfl | ⟨rfl, -⟩
  · exact (isPlain_ofInt z).mp
  · exact fun _ => rfl

/-- **A number with a sign is written for its value**, unless it is a zero with a minus. -/
theorem IsSigned.denotes (h : a.IsSigned) (hne : a ≠ negative 0) : a.Denotes a.toInt := by
  obtain ⟨sign, n⟩ := a
  rcases Nat.eq_zero_or_pos n with rfl | hpos
  · cases sign with
    | minus => exact absurd rfl hne
    | none => exact Or.inl rfl
    | plus => exact Or.inr ⟨rfl, rfl⟩
  · refine Or.inl (ofInt_toInt (iff_of_false (fun hsign => ?_) (Nat.ne_of_gt hpos))).symm
    exact Nat.ne_of_gt hpos (h hsign)

end Number

end Paillier
