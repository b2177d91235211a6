import Paillier.Proofs.Format.Json
import Paillier.Proofs.Format.Postcard

/-!
# Keys as JSON and in the postcard format

In both formats a key is written as the numbers it is made of, and made anew from them when it is read. So what is read
is what the constructor accepts: a number that makes a key does so in either format and in every form that it has there,
and a number that makes none does not, in any. Nothing is assumed of the size of the numbers; those that cannot be held
cannot be read, and are too large for a key.

## Main statements

* `PublicKey.ofJson_eq_ok_iff`, `PublicKey.ofPostcard_eq_ok_iff` — when the form of a number is read as a key.
* `PrivateKey.ofJson_eq_ok_iff`, `PrivateKey.ofPostcard_eq_ok_iff` — the same for two numbers.
* `interchange_roundTrip` — both formats, in both directions.
-/

namespace Paillier

open Json
open Number (positive)

/-- A number that is not negative is read with a plus. -/
theorem Number.Denotes.respelled_eq {a : Number} {n : Nat} (h : a.Denotes n) : a.respelled = positive n := by
  rw [respelled, if_neg h.sign_ne_minus, h.magnitude_natCast]

/-! ## Public keys -/

namespace PublicKey

variable {a : Number} {n : Nat} {pk : PublicKey} {text : List Char} {data : Bytes}

/-- The constructor does not tell apart the forms of a number. -/
theorem ofModulus_of_denotes (h : a.Denotes n) : ofModulus a = ofModulus n := by
  rcases h with rfl | ⟨rfl, hn⟩
  · rw [Number.ofInt_natCast]
  · rw [Int.natCast_eq_zero.mp hn, ofModulus_positive]

theorem fits_of_ofModulus (h : ofModulus a = .ok pk) : Fits a := by
  obtain ⟨-, -, -, hsquare, -⟩ := ofModulus_eq_ok_iff.mp h
  exact fits_iff.mpr (Nat.lt_of_le_of_lt (Nat.le_mul_self _) hsquare)

/-- **The text of a number is read as a key iff the number makes it.** -/
theorem ofJson_eq_ok_iff (htext : IsNumberText text a) (ha : a.Denotes n) :
    ofJson (String.ofList text) = .ok pk ↔ ofModulus a = .ok pk := by
  have hsame : ofModulus a.respelled = ofModulus a := by
    rw [ha.respelled_eq, ofModulus_positive, ofModulus_of_denotes ha]
  rw [ofJson, String.toList_ofList, bind_eq_ok]
  constructor
  · rintro ⟨⟨x, rest⟩, hscan, h⟩
    obtain ⟨hx, rfl⟩ := htext.scanNumber_eq_ok_iff.mp hscan
    obtain ⟨-, rfl⟩ := reread_eq_ok_iff.mp hx
    obtain ⟨found, hfound, h⟩ := bind_eq_ok.mp h
    cases h
    rw [← hsame, readout_eq_ok.mp hfound]
  · intro h
    refine ⟨(a.respelled, []), htext.scanNumber_eq_ok_iff.mpr ⟨?_, rfl⟩, ?_⟩
    · exact reread_eq_ok_iff.mpr ⟨fits_of_ofModulus h, rfl⟩
    · dsimp only
      rw [hsame, h]
      rfl

/-- **The bytes of a number are read as a key iff the number makes it.** -/
theorem ofPostcard_eq_ok_iff (hdata : IsNumberBytes data a) : ofPostcard data = .ok pk ↔ ofModulus a = .ok pk := by
  rw [ofPostcard, bind_eq_ok]
  constructor
  · rintro ⟨⟨x, rest⟩, hscan, h⟩
    obtain ⟨-, rfl, -⟩ := hdata.scanSigned_eq_ok_iff.mp hscan
    exact readout_eq_ok.mp h
  · intro h
    exact ⟨(a, []), hdata.scanSigned_eq_ok_iff.mpr ⟨fits_of_ofModulus h, rfl, rfl⟩, readout_eq_ok.mpr h⟩

/-- A key is read back from what is written for it. -/
theorem ofJson_toJson (h : ofModulus n = .ok pk) : ofJson pk.toJson = .ok pk := by
  obtain rfl := eq_of_ofModulus h
  exact (ofJson_eq_ok_iff (isNumberText_jsonOfNumber n) (Number.denotes_ofNat n)).mpr h

theorem ofPostcard_toPostcard (h : ofModulus a = .ok pk) : ofPostcard pk.toPostcard = .ok pk := by
  obtain rfl := eq_of_ofModulus h
  exact (ofPostcard_eq_ok_iff (isNumberBytes_postcardOfNumber a)).mpr h

end PublicKey

/-! ## Private keys -/

namespace PrivateKey

variable {a b : Number} {p q : Nat} {sk : PrivateKey} {text : List Char} {first second : Bytes}

/-- Zeros are not accepted, and other numbers that are not negative have a single form. -/
theorem ofPrimes_eq_ok_iff_of_denotes (ha : a.Denotes p) (hb : b.Denotes q) :
    ofPrimes a b = .ok sk ↔ ofPrimes (positive p) (positive q) = .ok sk := by
  constructor
  · intro h
    obtain ⟨-, hresa, hresb, -⟩ := ofPrimes_eq_ok h
    rw [ha.magnitude_natCast] at hresa
    rw [hb.magnitude_natCast] at hresb
    rwa [← ha.eq_positive (by omega), ← hb.eq_positive (by omega)]
  · intro h
    obtain ⟨-, hresp, hresq, -⟩ := ofPrimes_eq_ok h
    rw [Number.magnitude_positive] at hresp hresq
    rwa [ha.eq_positive (by omega), hb.eq_positive (by omega)]

theorem fits_of_ofPrimes (h : ofPrimes a b = .ok sk) : Fits a ∧ Fits b := by
  obtain ⟨-, hresa, hresb, -, -, hunchecked, -⟩ := ofPrimes_eq_ok h
  have hmul := Nat.lt_of_le_of_lt (Nat.le_mul_self _) (fits_of_ofPrimesUnchecked hunchecked)
  have ha : a.magnitude ≤ a.magnitude * b.magnitude := Nat.le_mul_of_pos_right _ (by omega)
  have hb : b.magnitude ≤ a.magnitude * b.magnitude := Nat.le_mul_of_pos_left _ (by omega)
  exact ⟨fits_iff.mpr (Nat.lt_of_le_of_lt ha hmul), fits_iff.mpr (Nat.lt_of_le_of_lt hb hmul)⟩

/-- **The text of two numbers is read as a key iff the numbers make it.** -/
theorem ofJson_eq_ok_iff (htext : IsPairText a b text) (ha : a.Denotes p) (hb : b.Denotes q) :
    ofJson (String.ofList text) = .ok sk ↔ ofPrimes a b = .ok sk := by
  have hsame : ofPrimes a.respelled b.respelled = .ok sk ↔ ofPrimes a b = .ok sk := by
    rw [ha.respelled_eq, hb.respelled_eq, ofPrimes_eq_ok_iff_of_denotes ha hb]
  rw [ofJson, String.toList_ofList, bind_eq_ok]
  constructor
  · rintro ⟨⟨⟨x, y⟩, rest⟩, hscan, h⟩
    obtain ⟨hx, hy, rfl⟩ := htext.scanPrimes_eq_ok_iff.mp hscan
    obtain ⟨-, rfl⟩ := reread_eq_ok_iff.mp hx
    obtain ⟨-, rfl⟩ := reread_eq_ok_iff.mp hy
    obtain ⟨found, hfound, h⟩ := bind_eq_ok.mp h
    cases h
    exact hsame.mp (readout_eq_ok.mp hfound)
  · intro h
    obtain ⟨hfitsa, hfitsb⟩ := fits_of_ofPrimes h
    refine ⟨((a.respelled, b.respelled), []), htext.scanPrimes_eq_ok_iff.mpr ⟨?_, ?_, rfl⟩, ?_⟩
    · exact reread_eq_ok_iff.mpr ⟨hfitsa, rfl⟩
    · exact reread_eq_ok_iff.mpr ⟨hfitsb, rfl⟩
    · dsimp only
      rw [hsame.mpr h]
      rfl

/-- **The bytes of two numbers are read as a key iff the numbers make it.** -/
theorem ofPostcard_eq_ok_iff (hfirst : IsNumberBytes first a) (hsecond : IsNumberBytes second b) :
    ofPostcard (first ++ second) = .ok sk ↔ ofPrimes a b = .ok sk := by
  rw [ofPostcard, bind_eq_ok]
  constructor
  · rintro ⟨⟨x, rest⟩, hx, h⟩
    obtain ⟨-, rfl, rfl⟩ := hfirst.scanSigned_append_eq_ok_iff.mp hx
    obtain ⟨⟨y, rest⟩, hy, h⟩ := bind_eq_ok.mp h
    obtain ⟨-, rfl, -⟩ := hsecond.scanSigned_eq_ok_iff.mp hy
    exact readout_eq_ok.mp h
  · intro h
    obtain ⟨hfitsa, hfitsb⟩ := fits_of_ofPrimes h
    refine ⟨(a, second), hfirst.scanSigned_append_eq_ok_iff.mpr ⟨hfitsa, rfl, rfl⟩, ?_⟩
    exact bind_eq_ok.mpr ⟨(b, []), hsecond.scanSigned_eq_ok_iff.mpr ⟨hfitsb, rfl, rfl⟩, readout_eq_ok.mpr h⟩

/-- **Two numbers that can be held are read as what the constructor makes of them**, and it refuses them in its own way. -/
theorem ofJson_eq_readout (htext : IsPairText a b text) (ha : Fits a) (hb : Fits b) :
    ofJson (String.ofList text) = (ofPrimes a.respelled b.respelled).readout := by
  have hscan : scanPrimes text = .ok ((a.respelled, b.respelled), []) :=
    htext.scanPrimes_eq_ok_iff.mpr ⟨reread_eq_ok_iff.mpr ⟨ha, rfl⟩, reread_eq_ok_iff.mpr ⟨hb, rfl⟩, rfl⟩
  rw [ofJson, String.toList_ofList, hscan, ok_bind]
  dsimp only
  -- nothing follows the text, so the end is as expected
  cases (ofPrimes a.respelled b.respelled).readout <;> rfl

/-- **The same of their bytes.** -/
theorem ofPostcard_eq_readout (hfirst : IsNumberBytes first a) (hsecond : IsNumberBytes second b) (ha : Fits a)
    (hb : Fits b) : ofPostcard (first ++ second) = (ofPrimes a b).readout := by
  have hp : scanSigned (first ++ second) = .ok (a, second) :=
    hfirst.scanSigned_append_eq_ok_iff.mpr ⟨ha, rfl, rfl⟩
  have hq : scanSigned second = .ok (b, []) := hsecond.scanSigned_eq_ok_iff.mpr ⟨hb, rfl, rfl⟩
  rw [ofPostcard, hp, ok_bind]
  dsimp only
  rw [hq, ok_bind]

theorem ofJson_toJson (h : ofPrimes p q = .ok sk) : ofJson sk.toJson = .ok sk := by
  obtain ⟨hp, hq⟩ := primes_of_ofPrimes h
  have htext : IsPairText (p : Number) (q : Number) sk.toJson.toList := by
    rw [toList_toJson, hp, hq]
    exact isPairText_jsonOfPair p q
  have hread := (ofJson_eq_ok_iff htext (Number.denotes_ofNat p) (Number.denotes_ofNat q)).mpr h
  rwa [String.ofList_toList] at hread

theorem ofPostcard_toPostcard (h : ofPrimes a b = .ok sk) : ofPostcard sk.toPostcard = .ok sk := by
  obtain ⟨rfl, rfl⟩ := primes_of_ofPrimes h
  exact (ofPostcard_eq_ok_iff (isNumberBytes_postcardOfNumber sk.p) (isNumberBytes_postcardOfNumber sk.q)).mpr h

end PrivateKey

/-! ## Both formats -/

/--
**Keys as JSON and in the postcard format, in both directions.**

An accepted key is read back from what is written for it. The other parts are about any numbers that are not negative:
one number is read as a public key, and two as a private key, iff they make that key. That holds of the text and the
bytes that are written for the numbers, and of all others that are read as them: with more or fewer zeros in front, with
digits of either case, with the members in the other order or in an array.
-/
theorem interchange_roundTrip :
    (∀ (n : Nat) (pk : PublicKey), PublicKey.ofModulus n = .ok pk →
      PublicKey.ofJson pk.toJson = .ok pk ∧ PublicKey.ofPostcard pk.toPostcard = .ok pk) ∧
    (∀ (p q : Nat) (sk : PrivateKey), PrivateKey.ofPrimes p q = .ok sk →
      PrivateKey.ofJson sk.toJson = .ok sk ∧ PrivateKey.ofPostcard sk.toPostcard = .ok sk) ∧
    (∀ (a : Number) (n : Nat), a.Denotes n →
      (IsNumberText (jsonOfNumber a) a ∧ IsNumberBytes (postcardOfNumber a) a) ∧
      ∀ pk : PublicKey,
        (∀ text, IsNumberText text a →
          (PublicKey.ofJson (String.ofList text) = .ok pk ↔ PublicKey.ofModulus a = .ok pk)) ∧
        ∀ data, IsNumberBytes data a → (PublicKey.ofPostcard data = .ok pk ↔ PublicKey.ofModulus a = .ok pk)) ∧
    ∀ (a b : Number) (p q : Nat), a.Denotes p → b.Denotes q →
      IsPairText a b (jsonOfPair a b) ∧
      ∀ sk : PrivateKey,
        (∀ text, IsPairText a b text →
          (PrivateKey.ofJson (String.ofList text) = .ok sk ↔ PrivateKey.ofPrimes a b = .ok sk)) ∧
        ∀ first second, IsNumberBytes first a → IsNumberBytes second b →
          (PrivateKey.ofPostcard (first ++ second) = .ok sk ↔ PrivateKey.ofPrimes a b = .ok sk) := by
  refine ⟨fun n pk hpk => ?_, fun p q sk hsk => ?_, fun a n ha => ⟨?_, fun pk => ?_⟩,
    fun a b p q ha hb => ⟨isPairText_jsonOfPair a b, fun sk => ?_⟩⟩
  · exact ⟨PublicKey.ofJson_toJson hpk, PublicKey.ofPostcard_toPostcard hpk⟩
  · exact ⟨PrivateKey.ofJson_toJson hsk, PrivateKey.ofPostcard_toPostcard hsk⟩
  · exact ⟨isNumberText_jsonOfNumber a, isNumberBytes_postcardOfNumber a⟩
  · exact ⟨fun text htext => PublicKey.ofJson_eq_ok_iff htext ha,
      fun data hdata => PublicKey.ofPostcard_eq_ok_iff hdata⟩
  · exact ⟨fun text htext => PrivateKey.ofJson_eq_ok_iff htext ha hb,
      fun first second hfirst hsecond => PrivateKey.ofPostcard_eq_ok_iff hfirst hsecond⟩

/-- The keys of the example, read from what is written for them, and the private one from an array. A zero with an odd
count of digits is read, but makes no key. -/
theorem interchange_roundTrip_example :
    ∃ (pk : PublicKey) (sk : PrivateKey),
      PublicKey.ofModulus (exampleP * exampleQ : Nat) = .ok pk ∧ PrivateKey.ofPrimes exampleP exampleQ = .ok sk ∧
      PublicKey.ofJson pk.toJson = .ok pk ∧ PublicKey.ofPostcard pk.toPostcard = .ok pk ∧
      PrivateKey.ofJson sk.toJson = .ok sk ∧ PrivateKey.ofPostcard sk.toPostcard = .ok sk ∧
      PrivateKey.ofJson (String.ofList
        ('[' :: jsonOfNumber exampleP ++ (',' :: (jsonOfNumber exampleQ ++ [']'])))) = .ok sk ∧
      ∀ other, PublicKey.ofJson (String.ofList ['"', '0', '"']) ≠ .ok other := by
  obtain ⟨pk, hpk⟩ := PublicKey.exists_ofModulus_example
  obtain ⟨sk, hsk⟩ := PrivateKey.exists_ofPrimes_example
  obtain ⟨hpublic, hprivate, hnumber, hpair⟩ := interchange_roundTrip
  obtain ⟨hpkJson, hpkPostcard⟩ := hpublic _ _ hpk
  obtain ⟨hskJson, hskPostcard⟩ := hprivate _ _ _ hsk
  obtain ⟨-, hforms⟩ := hpair _ _ _ _ (Number.denotes_ofNat exampleP) (Number.denotes_ofNat exampleQ)
  have harray := (hforms sk).1 _
    (.array (isNumberText_jsonOfNumber exampleP) (isNumberText_jsonOfNumber exampleQ))
  refine ⟨pk, sk, hpk, hsk, hpkJson, hpkPostcard, hskJson, hskPostcard, harray.mpr hsk, fun other hother => ?_⟩
  have hzero : IsNumberText ['"', '0', '"'] 0 := ⟨['0'], ⟨['0'], ⟨rfl, fun _ => by decide⟩, rfl⟩, rfl⟩
  obtain ⟨-, hzeros⟩ := hnumber 0 0 (Number.denotes_ofNat 0)
  exact refuse_ne_ok (((hzeros other).1 _ hzero).mp hother)

end Paillier
