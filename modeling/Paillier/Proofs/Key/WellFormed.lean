import Mathlib.Tactic.Linarith
import Paillier.Proofs.Format.Reading
import Paillier.Proofs.Key.Signed

/-!
# Well-formed keys

The checks on a key are checks on magnitudes, but numbers from outside may bring a sign along. What they let in is
well-formed iff the numbers are positive. Bytes behind a length hold no signs, so only JSON text, the postcard format
and the constructors themselves let anything else in.

A private key that is not positive has a wrong `λ`: with a minus in front of `p` the number `(p - 1) * (q - 1)` is no
longer Euler's function of `N`. A public key that is not positive cannot be told from the positive one by its bytes.

## Main statements

* `PrivateKey.wellFormed_iff_primes_pos` — the private keys that are accepted, and which of them are well-formed.
* `PublicKey.wellFormed_iff_modulus_pos` — the same for public keys.
-/

namespace Paillier

open Number (ofInt positive negative)

/-! ## Positive numbers -/

/-- A number comes after zero iff it has a plus. -/
theorem Number.zero_lt_iff {a : Number} : 0 < a ↔ a.sign = .plus := by
  obtain ⟨sign, n⟩ := a
  show before (ofNat 0) ⟨sign, n⟩ = true ↔ sign = .plus
  cases sign <;> simp [before, ofNat, withSign]

theorem Number.lt_ofInt_iff {x y : Int} : ofInt x < ofInt y ↔ x < y := by
  rw [lt_iff (isPlain_ofInt x) (isPlain_ofInt y), toInt_ofInt, toInt_ofInt]

theorem Number.zero_lt_ofInt_iff {x : Int} : 0 < ofInt x ↔ 0 < x := lt_ofInt_iff (x := 0)

/-! ## Private keys -/

/-- The key is made of two positive primes, and its other numbers are those of the scheme. -/
structure PrivateKey.WellFormed (sk : PrivateKey) : Prop where
  p_pos : 0 < sk.p
  prime_p : sk.p.magnitude.Prime
  q_pos : 0 < sk.q
  prime_q : sk.q.magnitude.Prime
  modulus_pos : 0 < sk.publicKey.modulus
  modulus_eq : sk.publicKey.modulus.toInt = sk.p.toInt * sk.q.toInt
  lambda_eq : sk.lambda.toInt = Nat.totient sk.publicKey.n
  mu_pos : 0 < sk.mu
  mu_lt : sk.mu < sk.publicKey.modulus
  lambda_mul_mu : sk.lambda.toInt * sk.mu.toInt ≡ 1 [ZMOD sk.publicKey.modulus.toInt]

/-- The ways in: a key is made of two numbers, or it is read. -/
inductive PrivateKey.GetsIn (sk : PrivateKey) : Prop
  | fromPrimes {a b : Number} (h : ofPrimes a b = .ok sk)
  | fromJson {text : String} (h : ofJson text = .ok sk)
  | fromPostcard {data : Bytes} (h : ofPostcard data = .ok sk)
  | fromBytes {data : Bytes} (h : ofBytes data = .ok sk)

namespace PrivateKey

variable {sk : PrivateKey} {x y : Int}

/-- All of them lead through the same checks. -/
theorem GetsIn.ofPrimes_eq (h : sk.GetsIn) : ofPrimes sk.p sk.q = .ok sk := by
  cases h with
  | fromPrimes h => exact ofPrimes_primes h
  | fromJson h => exact ofPrimes_of_ofJson h
  | fromPostcard h => exact ofPrimes_of_ofPostcard h
  | fromBytes h => exact ofPrimes_of_ofBytes h

/-- With a minus the product of the predecessors is too large in magnitude, or it is negative. -/
theorem mul_pred_eq_iff (hx : 1 < x.natAbs) (hy : 1 < y.natAbs) :
    (x - 1) * (y - 1) = ((x.natAbs - 1) * (y.natAbs - 1) : Nat) ↔ 0 < x ∧ 0 < y := by
  obtain ⟨p, hp⟩ := Nat.exists_eq_add_of_le' hx
  obtain ⟨q, hq⟩ := Nat.exists_eq_add_of_le' hy
  rw [hp, hq]
  have hxp : x = p + 2 ∨ x = -(p + 2) := by omega
  have hyq : y = q + 2 ∨ y = -(q + 2) := by omega
  have hcast : ((p + 2 - 1) * (q + 2 - 1) : Nat) = ((p : Int) + 1) * (q + 1) := by
    push_cast
    rfl
  have hfirst : (0 : Int) ≤ p := Int.natCast_nonneg p
  have hsecond : (0 : Int) ≤ q := Int.natCast_nonneg q
  rw [hcast]
  rcases hxp with rfl | rfl <;> rcases hyq with rfl | rfl
  · exact iff_of_true (by ring) (by omega)
  · refine iff_of_false ?_ (by omega)
    intro h
    nlinarith
  · refine iff_of_false ?_ (by omega)
    intro h
    nlinarith
  · refine iff_of_false ?_ (by omega)
    intro h
    nlinarith

/-- **The number `λ` is Euler's function of the modulus iff both primes are positive.** -/
theorem IsKeyOfIntegers.lambda_eq_totient_iff (h : sk.IsKeyOfIntegers x y) (hpair : PrimePair x.natAbs y.natAbs) :
    sk.lambda.toInt = Nat.totient sk.publicKey.n ↔ 0 < x ∧ 0 < y := by
  rw [h.lambda_eq, PublicKey.n, h.modulus_eq, Number.toInt_ofInt, Number.magnitude_ofInt, Int.natAbs_mul,
    hpair.totient_mul]
  exact mul_pred_eq_iff hpair.prime_p.one_lt hpair.prime_q.one_lt

theorem IsKeyOfIntegers.wellFormed (h : sk.IsKeyOfIntegers x y) (hpair : PrimePair x.natAbs y.natAbs) (hx : 0 < x)
    (hy : 0 < y) : sk.WellFormed where
  p_pos := by rwa [h.p_eq, Number.zero_lt_ofInt_iff]
  prime_p := by rw [h.p_eq, Number.magnitude_ofInt]; exact hpair.prime_p
  q_pos := by rwa [h.q_eq, Number.zero_lt_ofInt_iff]
  prime_q := by rw [h.q_eq, Number.magnitude_ofInt]; exact hpair.prime_q
  modulus_pos := by rw [h.modulus_eq, Number.zero_lt_ofInt_iff]; exact Int.mul_pos hx hy
  modulus_eq := by rw [h.modulus_eq, h.p_eq, h.q_eq, Number.toInt_ofInt, Number.toInt_ofInt, Number.toInt_ofInt]
  lambda_eq := (h.lambda_eq_totient_iff hpair).mpr ⟨hx, hy⟩
  mu_pos := by
    rw [h.mu_eq, Number.zero_lt_ofInt_iff, h.mu_pos_iff]
    exact Int.mul_pos (by have := hpair.three_le_p; omega) (by have := hpair.seven_le_q; omega)
  mu_lt := by
    have hpos := Int.mul_pos hx hy
    have hlt := h.mu_lt
    rw [h.mu_eq, h.modulus_eq, Number.lt_ofInt_iff]
    omega
  lambda_mul_mu := by
    rw [h.lambda_eq, h.modulus_eq, Number.toInt_ofInt, Number.toInt_ofInt]
    exact h.lambda_mul_mu

theorem IsKeyOfIntegers.wellFormed_iff (h : sk.IsKeyOfIntegers x y) (hpair : PrimePair x.natAbs y.natAbs) :
    sk.WellFormed ↔ 0 < x ∧ 0 < y := by
  constructor
  · intro hwell
    have hp := hwell.p_pos
    have hq := hwell.q_pos
    rw [h.p_eq, Number.zero_lt_ofInt_iff] at hp
    rw [h.q_eq, Number.zero_lt_ofInt_iff] at hq
    exact ⟨hp, hq⟩
  · rintro ⟨hx, hy⟩
    exact h.wellFormed hpair hx hy

/-- A key that was read from bytes behind a length is well-formed: a magnitude that was accepted is not zero. -/
theorem wellFormed_of_ofBytes {data : Bytes} (h : ofBytes data = .ok sk) (hp : ExactAt sk.p.magnitude)
    (hq : ExactAt sk.q.magnitude) : sk.WellFormed := by
  obtain ⟨-, hsk⟩ := ofBytes_eq_ok h
  obtain ⟨hsp, hsq, -⟩ := lengths_of_ofPrimes hsk
  obtain ⟨x, y, hx, hy, hpair, hkey⟩ := isKeyOfIntegers_of_ofPrimes (ofPrimes_primes hsk) hp hq
  refine (hkey.wellFormed_iff hpair).mpr ?_
  rw [← Number.zero_lt_ofInt_iff, ← Number.zero_lt_ofInt_iff, ← hx, ← hy, hsp, hsq, Number.zero_lt_iff,
    Number.zero_lt_iff]
  exact ⟨rfl, rfl⟩

/--
**Among the private keys that get in, the well-formed ones are those of two positive numbers.**

Whatever way a key came in, its magnitudes are a prime pair and its other numbers follow from the two integers. With a
minus somewhere it is not well-formed, and in any case `λ` is wrong. The last part is about the ways in: a pair of
numbers is kept as it is, and bytes behind a length hold no signs.
-/
theorem wellFormed_iff_primes_pos (h : sk.GetsIn) (hp : ExactAt sk.p.magnitude) (hq : ExactAt sk.q.magnitude) :
    PrimePair sk.p.magnitude sk.q.magnitude ∧ sk.IsKeyOfIntegers sk.p.toInt sk.q.toInt ∧
      (sk.WellFormed ↔ 0 < sk.p ∧ 0 < sk.q) ∧
      (sk.lambda.toInt = Nat.totient sk.publicKey.n ↔ 0 < sk.p ∧ 0 < sk.q) ∧
      (∀ a b, ofPrimes a b = .ok sk → sk.p = a ∧ sk.q = b) ∧ ∀ data, ofBytes data = .ok sk → sk.WellFormed := by
  obtain ⟨x, y, hx, hy, hpair, hkey⟩ := isKeyOfIntegers_of_ofPrimes h.ofPrimes_eq hp hq
  have hwell := hkey.wellFormed_iff hpair
  have hlambda := hkey.lambda_eq_totient_iff hpair
  rw [hx, hy, Number.toInt_ofInt, Number.toInt_ofInt, Number.zero_lt_ofInt_iff, Number.zero_lt_ofInt_iff,
    Number.magnitude_ofInt, Number.magnitude_ofInt, ← hx, ← hy]
  exact ⟨hpair, hkey, hwell, hlambda, fun a b hsk => primes_of_ofPrimes hsk,
    fun data hread => wellFormed_of_ofBytes hread hp hq⟩

/-- The key of the example gets in and is well-formed. -/
theorem wellFormed_iff_primes_pos_example :
    ∃ sk, ofPrimes (positive exampleP) (positive exampleQ) = .ok sk ∧
      sk.GetsIn ∧ ExactAt sk.p.magnitude ∧ ExactAt sk.q.magnitude ∧ sk.WellFormed := by
  obtain ⟨sk, hsk⟩ : ∃ sk, ofPrimes (positive exampleP) (positive exampleQ) = .ok sk :=
    (exists_ofPrimes_iff exactAt_exampleP exactAt_exampleQ).mpr
      ⟨by simp [positive], primePair_example, by decide +kernel, by decide +kernel⟩
  obtain ⟨hsp, hsq⟩ := primes_of_ofPrimes hsk
  have hp : ExactAt sk.p.magnitude := by
    rw [hsp]
    exact exactAt_exampleP
  have hq : ExactAt sk.q.magnitude := by
    rw [hsq]
    exact exactAt_exampleQ
  obtain ⟨-, -, hwell, -⟩ := wellFormed_iff_primes_pos (.fromPrimes hsk) hp hq
  refine ⟨sk, hsk, .fromPrimes hsk, hp, hq, hwell.mpr ?_⟩
  rw [hsp, hsq]
  exact ⟨rfl, rfl⟩

/-- The primes of the sample with a minus in front, as JSON text. -/
def negativeText : String := "[\"-ce6a30141db6fd610b948458fc01fc5b\",\"-e9d7e1a1641768032a81b18b1526b1bf\"]"

/-- Two negative primes are read as a key, which is not well-formed. -/
theorem exists_negative_key :
    ∃ sk, ofJson negativeText = .ok sk ∧ ofPrimes (negative exampleP) (negative exampleQ) = .ok sk ∧
      ¬ sk.WellFormed ∧ sk.lambda.toInt ≠ Nat.totient sk.publicKey.n := by
  obtain ⟨sk, hsk⟩ : ∃ sk, ofPrimes (negative exampleP) (negative exampleQ) = .ok sk :=
    (exists_ofPrimes_iff exactAt_exampleP exactAt_exampleQ).mpr
      ⟨by simp [negative], primePair_example, by decide +kernel, by decide +kernel⟩
  have hread := eq_ok_of_primes (ofJson negativeText) hsk (fun sk => ofPrimes_of_ofJson) (by decide +kernel)
  obtain ⟨x, y, hx, hy, hpair, hkey⟩ := isKeyOfIntegers_of_ofPrimes hsk exactAt_exampleP exactAt_exampleQ
  have hneg : ¬ (0 < x ∧ 0 < y) := by
    rintro ⟨hpos, -⟩
    rw [← Number.zero_lt_ofInt_iff, ← hx, Number.zero_lt_iff] at hpos
    cases hpos
  exact ⟨sk, hread, hsk, fun h => hneg ((hkey.wellFormed_iff hpair).mp h),
    fun h => hneg ((hkey.lambda_eq_totient_iff hpair).mp h)⟩

end PrivateKey

/-! ## Public keys -/

/-- The modulus is a positive, odd, composite number of full length, and the key is read back from its bytes. -/
structure PublicKey.WellFormed (pk : PublicKey) : Prop where
  modulus_pos : 0 < pk.modulus
  odd : pk.n % 2 = 1
  composite : ¬ pk.n.Prime
  long : 2 ^ 255 ≤ pk.n
  modulusSquared_eq : pk.modulusSquared.toInt = pk.modulus.toInt ^ 2
  readable : ∃ data, pk.toBytes = .ok data ∧ ofBytes data = .ok pk

/-- The ways in: a key is made of a number, or it is read. -/
inductive PublicKey.GetsIn (pk : PublicKey) : Prop
  | fromModulus {a : Number} (h : ofModulus a = .ok pk)
  | fromJson {text : String} (h : ofJson text = .ok pk)
  | fromPostcard {data : Bytes} (h : ofPostcard data = .ok pk)
  | fromBytes {data : Bytes} (h : ofBytes data = .ok pk)

namespace PublicKey

variable {a : Number} {pk : PublicKey}

/-- All of them lead through the same checks. -/
theorem GetsIn.ofModulus_eq (h : pk.GetsIn) : ofModulus pk.modulus = .ok pk := by
  cases h with
  | fromModulus h => exact ofModulus_modulus h
  | fromJson h => exact ofModulus_of_ofJson h
  | fromPostcard h => exact ofModulus_of_ofPostcard h
  | fromBytes h => exact ofModulus_of_ofBytes h

/-- The square has a sign of its own: two minus signs make a plus. -/
theorem modulusSquared_toInt (pk : PublicKey) : pk.modulusSquared.toInt = pk.modulus.toInt ^ 2 := by
  obtain ⟨⟨sign, n⟩⟩ := pk
  rw [pow_two]
  cases sign with
  | minus =>
    show ((n * n : Nat) : Int) = -n * -n
    rw [Int.neg_mul_neg, Int.natCast_mul]
  | none => exact Int.natCast_mul n n
  | plus => exact Int.natCast_mul n n

/-- Without its sign an accepted modulus is accepted too. -/
theorem ofModulus_magnitude (h : ofModulus a = .ok pk) : ofModulus a.magnitude = .ok ⟨positive a.magnitude⟩ := by
  obtain ⟨hlong, hodd, hcomposite, hfits, -⟩ := ofModulus_eq_ok_iff.mp h
  rw [← ofModulus_positive]
  exact ofModulus_eq_ok_iff.mpr ⟨hlong, hodd, hcomposite, hfits, rfl⟩

/-- **The bytes of an accepted key are those of the key with a plus**, and are read as that key. -/
theorem exists_toBytes_of_accepted (h : ofModulus a = .ok pk) :
    ∃ data, pk.toBytes = .ok data ∧ ofBytes data = .ok ⟨positive a.magnitude⟩ := by
  obtain ⟨data, hdata, -, hread⟩ := exists_toBytes_of_ofModulus (ofModulus_magnitude h)
  obtain rfl := eq_of_ofModulus h
  exact ⟨data, hdata, hread⟩

/-- So the bytes lose nothing but the sign. -/
theorem readable_iff (h : ofModulus a = .ok pk) :
    (∃ data, pk.toBytes = .ok data ∧ ofBytes data = .ok pk) ↔ 0 < a := by
  obtain ⟨data, hdata, hread⟩ := exists_toBytes_of_accepted h
  obtain rfl := eq_of_ofModulus h
  rw [Number.zero_lt_iff]
  constructor
  · rintro ⟨other, hother, hback⟩
    rw [hdata] at hother
    cases hother
    rw [hread] at hback
    exact (congrArg (fun pk => pk.modulus.sign) (Except.ok.inj hback)).symm
  · intro hsign
    refine ⟨data, hdata, hread.trans ?_⟩
    obtain ⟨sign, n⟩ := a
    cases hsign
    rfl

theorem wellFormed_iff (h : ofModulus a = .ok pk) (ha : ExactAt a.magnitude) : pk.WellFormed ↔ 0 < a := by
  have hread := readable_iff h
  obtain ⟨hlong, hodd, hcomposite, -, rfl⟩ := ofModulus_eq_ok_iff.mp h
  constructor
  · intro hwell
    exact hwell.modulus_pos
  · intro hpos
    exact ⟨hpos, hodd, ha.eq_false_iff.mp hcomposite, hlong, modulusSquared_toInt _, hread.mpr hpos⟩

/-- A key that was read from bytes behind a length is well-formed: a magnitude that was accepted is not zero. -/
theorem wellFormed_of_ofBytes {data : Bytes} (h : ofBytes data = .ok pk) (hexact : ExactAt pk.n) : pk.WellFormed := by
  obtain ⟨-, hpk⟩ := ofBytes_eq_ok h
  obtain ⟨rfl, -, -⟩ := modulus_of_ofModulus hpk
  exact (wellFormed_iff (ofModulus_modulus hpk) hexact).mpr rfl

/--
**Among the public keys that get in, the well-formed ones are those of a positive number.**

Whatever way a key came in, everything is as it should be but the sign, and that its bytes do not keep. The last part is
about the ways in: a number is kept as it is, and bytes behind a length hold no sign.
-/
theorem wellFormed_iff_modulus_pos (h : pk.GetsIn) (hexact : ExactAt pk.n) :
    pk.n % 2 = 1 ∧ ¬ pk.n.Prime ∧ 2 ^ 255 ≤ pk.n ∧ pk.modulusSquared.toInt = pk.modulus.toInt ^ 2 ∧
      (∃ data, pk.toBytes = .ok data ∧ ofBytes data = .ok ⟨positive pk.n⟩) ∧
      ((∃ data, pk.toBytes = .ok data ∧ ofBytes data = .ok pk) ↔ 0 < pk.modulus) ∧
      (pk.WellFormed ↔ 0 < pk.modulus) ∧
      (∀ a, ofModulus a = .ok pk → pk.modulus = a) ∧ ∀ data, ofBytes data = .ok pk → pk.WellFormed := by
  have hpk := h.ofModulus_eq
  obtain ⟨hlong, hodd, hcomposite, -, -⟩ := ofModulus_eq_ok_iff.mp hpk
  exact ⟨hodd, hexact.eq_false_iff.mp hcomposite, hlong, modulusSquared_toInt pk, exists_toBytes_of_accepted hpk,
    readable_iff hpk, wellFormed_iff hpk hexact, fun a hmade => congrArg modulus (eq_of_ofModulus hmade),
    fun data hread => wellFormed_of_ofBytes hread hexact⟩

/-- The key of the example gets in and is well-formed. -/
theorem wellFormed_iff_modulus_pos_example :
    ∃ pk, ofModulus (positive (exampleP * exampleQ)) = .ok pk ∧ pk.GetsIn ∧ ExactAt pk.n ∧ pk.WellFormed := by
  obtain ⟨pk, hpk⟩ : ∃ pk, ofModulus (positive (exampleP * exampleQ)) = .ok pk :=
    (exists_ofModulus_number_iff exactAt_example).mpr
      ⟨by decide +kernel, not_prime_example, by decide +kernel, by decide +kernel⟩
  obtain rfl := eq_of_ofModulus hpk
  obtain ⟨-, -, -, -, -, -, hwell, -⟩ := wellFormed_iff_modulus_pos (.fromModulus hpk) exactAt_example
  exact ⟨_, hpk, .fromModulus hpk, exactAt_example, hwell.mpr rfl⟩

/-- The modulus of the sample with a minus in front, as JSON text. -/
def negativeText : String := "\"-bc8cb6de25aec64083496cac681c43f595a6e228811eab56919bc709517832e5\""

/-- A negative modulus is read as a key, and its bytes are read as another one. -/
theorem exists_negative_modulus :
    ∃ pk, ofJson negativeText = .ok pk ∧ ofModulus (negative (exampleP * exampleQ)) = .ok pk ∧
      ¬ pk.WellFormed ∧ ¬ ∃ data, pk.toBytes = .ok data ∧ ofBytes data = .ok pk := by
  obtain ⟨pk, hpk⟩ : ∃ pk, ofModulus (negative (exampleP * exampleQ)) = .ok pk :=
    (exists_ofModulus_number_iff exactAt_example).mpr
      ⟨by decide +kernel, not_prime_example, by decide +kernel, by decide +kernel⟩
  have hread := eq_ok_of_modulus (ofJson negativeText) hpk (fun pk => ofModulus_of_ofJson) (by decide +kernel)
  have hneg : ¬ 0 < negative (exampleP * exampleQ) := by
    rw [Number.zero_lt_iff]
    simp [negative]
  exact ⟨pk, hread, hpk, fun h => hneg ((wellFormed_iff hpk exactAt_example).mp h),
    fun h => hneg ((readable_iff hpk).mp h)⟩

end PublicKey

end Paillier
