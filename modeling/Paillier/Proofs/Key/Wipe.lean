import Paillier.Proofs.Ciphertext.Fresh
import Paillier.Proofs.Format.Interchange
import Paillier.Proofs.Key.Use
import Paillier.Proofs.Number.Word

/-!
# Keys that were wiped

A private key that was wiped still has its public half, and that works as before. Its other numbers are zero, as they
are in no key that is accepted. So what decryption relies on does not hold any more, but all the same it ends with a
value, in which neither the key nor the plaintext has a part.

Decryption raises the ciphertext to the power of zero. That is one, of which the function `L` is zero, and so is the
product with `μ`. Only the check of the ciphertext tells one operand from another, and it needs no more than the public
half. What is written for the key is written for two zeros; these are equal, and equal numbers make no key.

## Main statements

* `PrivateKey.decrypt_of_lambda_eq_zero` — decryption when `λ` is zero, whatever `μ` is.
* `PrivateKey.ofJson_of_self`, `PrivateKey.ofPostcard_of_self` — no format lets in two equal numbers.
* `PrivateKey.wiped_gives_nothing_away` — both together, for every key that was accepted.
-/

namespace Paillier

open Json

/-! ## Decryption -/

namespace Residue

/-- The power of zero is one, whatever the base is. -/
theorem pow_zero (a : Number) {n : Number} (hodd : n.magnitude % 2 = 1) (hn : 1 < n.magnitude) :
    pow a 0 n = .ok 1 := by
  rw [pow, if_neg (by omega)]
  dsimp only
  rw [if_neg (by decide), powMod_eq, Number.magnitude_literal, Nat.pow_zero, Nat.mod_eq_of_lt hn]
  rfl

/-- Zero has no sign, and neither has a product with it. -/
theorem zero_mul (b : Number) {n : Number} (hodd : n.magnitude % 2 = 1) : mul 0 b n = .ok 0 := by
  have hsign : (0 : Number).sign * b.sign ≠ .minus := by
    show Sign.none * b.sign ≠ .minus
    cases b.sign <;> decide
  rw [mul, if_neg (by omega)]
  dsimp only
  rw [settled_of_ne_minus hsign, Number.magnitude_literal, Nat.zero_mul, Nat.zero_mod]
  rfl

end Residue

theorem PublicKey.Sound.quotientOf_one {pk : PublicKey} (h : pk.Sound) : pk.quotientOf 1 = .ok 0 := by
  have hone := h.quotientOf_eq (x := 0) (by rw [Nat.zero_mul]; decide +kernel)
  rwa [Nat.zero_mul] at hone

namespace PrivateKey

variable {sk : PrivateKey} {c : Number} {data : Bytes}

/-- **Without `λ` all that counts is whether the ciphertext is accepted.** -/
theorem decrypt_of_lambda_eq_zero (h : sk.publicKey.Sound) (hlambda : sk.lambda = 0) (c : Number) :
    sk.decrypt c = (sk.publicKey.checkCiphertext c).map fun _ => 0 := by
  have hpow := Residue.pow_zero c h.modulusSquared_odd (by rw [h.modulusSquared_eq]; exact h.one_lt_mul_self)
  rw [decrypt, hlambda, hpow, ok_bind, h.quotientOf_one, ok_bind, Residue.zero_mul sk.mu h.odd]
  cases sk.publicKey.checkCiphertext c <;> rfl

theorem decrypt_eq_zero (h : sk.publicKey.Sound) (hlambda : sk.lambda = 0)
    (hc : sk.publicKey.checkCiphertext c = .ok ()) : sk.decrypt c = .ok 0 := by
  rw [decrypt_of_lambda_eq_zero h hlambda, hc]
  rfl

theorem decryptWord_eq_zero (h : sk.publicKey.Sound) (hlambda : sk.lambda = 0)
    (hc : sk.publicKey.checkCiphertext c = .ok ()) : sk.decryptWord c = .ok 0 := by
  have hzero : (0 : Number).toWord? = some 0 := Number.toWord?_eq_some_iff.mpr ⟨by decide, rfl⟩
  rw [decryptWord, decrypt_eq_zero h hlambda hc, ok_bind, hzero]
  rfl

theorem decryptBytes_eq_zero (h : sk.publicKey.Sound) (hlambda : sk.lambda = 0)
    (hdata : sk.publicKey.ciphertextOfBytes data = .ok c) (hc : sk.publicKey.checkCiphertext c = .ok ()) :
    sk.decryptBytes data = .ok [0] := by
  rw [decryptBytes, hdata, ok_bind, decrypt_eq_zero h hlambda hc, ok_bind]
  exact paddedNumber_eq_ok_iff.mpr ⟨by decide, rfl, rfl⟩

/-! ## What is written -/

/-- Equal numbers make no key. -/
theorem ofPrimes_self (a : Number) : ofPrimes a a = refuse .invalidKey := if_pos (Or.inl rfl)

/-- **Equal numbers are refused in every text of them.** -/
theorem ofJson_of_self {a : Number} {text : List Char} (htext : IsPairText a a text) (ha : Fits a) :
    ofJson (String.ofList text) = .error (.unsound (.refused .invalidKey)) := by
  rw [ofJson_eq_readout htext ha ha, ofPrimes_self]
  rfl

/-- **And in all bytes of them.** -/
theorem ofPostcard_of_self {a : Number} {first second : Bytes} (hfirst : IsNumberBytes first a)
    (hsecond : IsNumberBytes second a) (ha : Fits a) :
    ofPostcard (first ++ second) = .error (.unsound (.refused .invalidKey)) := by
  rw [ofPostcard_eq_readout hfirst hsecond ha ha, ofPrimes_self]
  rfl

theorem toBytes_wipe (sk : PrivateKey) : sk.wipe.toBytes = .ok [0, 0, 0, 0] := by
  have hzero : paddedNumber 0 (byteLength (0 : Number).magnitude) = .ok [] := by
    rw [paddedNumber_byteLength, show (0 : Number).magnitude = 0 from rfl, bigEndian_zero]
  rw [toBytes]
  simp only [wipe, Nat.max_self, hzero]
  rfl

theorem toJson_wipe (sk : PrivateKey) : sk.wipe.toJson = String.ofList (jsonOfPair 0 0) := by
  have htext := congrArg String.ofList (toList_toJson sk.wipe)
  rwa [String.ofList_toList] at htext

theorem toPostcard_wipe (sk : PrivateKey) : sk.wipe.toPostcard = postcardOfNumber 0 ++ postcardOfNumber 0 := rfl

/-! ## Keys without a private half -/

/-- The private half is gone: nothing that comes out depends on it, and nothing that is written is a key. -/
structure IsBlank (sk : PrivateKey) : Prop where
  /-- Every ciphertext that is accepted is decrypted to zero, whatever it holds. -/
  decrypt_eq (c : Number) : sk.publicKey.checkCiphertext c = .ok () → sk.decrypt c = .ok 0
  /-- And to the word zero. -/
  decryptWord_eq (c : Number) : sk.publicKey.checkCiphertext c = .ok () → sk.decryptWord c = .ok 0
  /-- And to the one byte that is written for zero. -/
  decryptBytes_eq (data : Bytes) (c : Number) : sk.publicKey.ciphertextOfBytes data = .ok c →
    sk.publicKey.checkCiphertext c = .ok () → sk.decryptBytes data = .ok [0]
  /-- No other ciphertext is decrypted. -/
  decrypt_refused (c : Number) : sk.publicKey.checkCiphertext c ≠ .ok () → sk.decrypt c = refuse .invalidCiphertext
  /-- The bytes are a length of zero, with nothing behind it. -/
  toBytes_eq : sk.toBytes = .ok [0, 0, 0, 0]
  toJson_eq : sk.toJson = "\x7b\"p\":\"\",\"q\":\"\"\x7d"
  /-- Two numbers without a sign, and without a magnitude. -/
  toPostcard_eq : sk.toPostcard = [0, 0, 0, 0]
  ofBytes_refused (data : Bytes) : sk.toBytes = .ok data → ofBytes data = refuse .keyTooShort
  ofJson_refused : ofJson sk.toJson = .error (.unsound (.refused .invalidKey))
  ofPostcard_refused : ofPostcard sk.toPostcard = .error (.unsound (.refused .invalidKey))

/-- **A key with a sound public half is blank once it is wiped.** -/
theorem isBlank_wipe (h : sk.wipe.publicKey.Sound) : sk.wipe.IsBlank where
  decrypt_eq c hc := decrypt_eq_zero h rfl hc
  decryptWord_eq c hc := decryptWord_eq_zero h rfl hc
  decryptBytes_eq data c hdata hc := decryptBytes_eq_zero h rfl hdata hc
  decrypt_refused c hc := by
    rw [decrypt, PublicKey.checkCiphertext_eq_refuse hc, refuse_bind]
  toBytes_eq := toBytes_wipe sk
  toJson_eq := by
    rw [toJson_wipe]
    decide +kernel
  toPostcard_eq := by
    rw [toPostcard_wipe]
    decide +kernel
  ofBytes_refused data hdata := by
    rw [toBytes_wipe] at hdata
    cases hdata
    rw [ofBytes_eq_bind, if_pos (by decide)]
  ofJson_refused := by
    rw [toJson_wipe]
    exact ofJson_of_self (isPairText_jsonOfPair 0 0) (by decide)
  ofPostcard_refused :=
    ofPostcard_of_self (isNumberBytes_postcardOfNumber 0) (isNumberBytes_postcardOfNumber 0) (by decide)

/--
**A wiped key gives nothing away.**

Its public half is that of the key, so what is encrypted under it is the same as before. Everything else that comes out
of two wiped keys is the same: what they decrypt, whichever ciphertexts they are given, and what is written for them in
any format; and no format lets it in again.
-/
theorem wiped_gives_nothing_away {p q p' q' : Nat} {sk sk' : PrivateKey} (accepted : ofPrimes p q = .ok sk)
    (accepted' : ofPrimes p' q' = .ok sk') :
    (sk.wipe.publicKey = sk.publicKey ∧
      ∀ m r : Number, sk.publicKey.checkPlaintext m = .ok () → sk.publicKey.checkNonce r = .ok () →
        ∃ c, sk.publicKey.encryptWithNonce m r = .ok c ∧ sk.wipe.publicKey.encryptWithNonce m r = .ok c) ∧
    sk.wipe.IsBlank ∧
    (∀ c c' : Number, sk.publicKey.checkCiphertext c = .ok () → sk'.publicKey.checkCiphertext c' = .ok () →
      sk.wipe.decrypt c = .ok 0 ∧ sk'.wipe.decrypt c' = sk.wipe.decrypt c) ∧
    sk'.wipe.toBytes = sk.wipe.toBytes ∧ sk'.wipe.toJson = sk.wipe.toJson ∧
      sk'.wipe.toPostcard = sk.wipe.toPostcard := by
  have hsound := sound_publicKey_of_ofPrimes accepted
  have hsound' := sound_publicKey_of_ofPrimes accepted'
  have hblank : sk.wipe.IsBlank := isBlank_wipe hsound
  have hblank' : sk'.wipe.IsBlank := isBlank_wipe hsound'
  refine ⟨⟨rfl, fun m r hm hr => ?_⟩, hblank, fun c c' hc hc' => ?_, ?_, ?_, ?_⟩
  · obtain ⟨j, hj⟩ := hsound.exists_validNonce hr
    obtain ⟨c, hencrypt, -⟩ := hsound.encryptUnchecked_delivers hm hj
    have hc : sk.publicKey.encryptWithNonce m r = .ok c := by
      rw [PublicKey.encryptWithNonce, hm, ok_bind, hr, ok_bind, hencrypt]
    exact ⟨c, hc, hc⟩
  · have hzero := hblank.decrypt_eq c hc
    exact ⟨hzero, (hblank'.decrypt_eq c' hc').trans hzero.symm⟩
  · rw [hblank.toBytes_eq, hblank'.toBytes_eq]
  · rw [hblank.toJson_eq, hblank'.toJson_eq]
  · rw [hblank.toPostcard_eq, hblank'.toPostcard_eq]

/-- Two keys that have no number in common. Before it is wiped, the first of them does not decrypt the ciphertext two to
zero. -/
theorem wiped_gives_nothing_away_twoKeys :
    ∃ sk sk' : PrivateKey, ofPrimes exampleP exampleQ = .ok sk ∧
      ofPrimes (2 ^ 128 - 173 : Nat) (2 ^ 128 - 233 : Nat) = .ok sk' ∧
      sk.publicKey.checkPlaintext 5 = .ok () ∧ sk.publicKey.checkNonce 2 = .ok () ∧
      sk.publicKey.checkCiphertext 2 = .ok () ∧ sk'.publicKey.checkCiphertext 1 = .ok () ∧ sk.decrypt 2 ≠ .ok 0 ∧
      (∃ c, sk.publicKey.encryptWithNonce 5 2 = .ok c ∧ sk.wipe.publicKey.encryptWithNonce 5 2 = .ok c) ∧
      sk.wipe.decrypt 2 = .ok 0 ∧ sk'.wipe.decrypt 1 = sk.wipe.decrypt 2 ∧ sk'.wipe.toBytes = sk.wipe.toBytes ∧
      ofJson sk.wipe.toJson = .error (.unsound (.refused .invalidKey)) := by
  obtain ⟨sk, hsk⟩ := exists_ofPrimes_example
  -- the keys are only computed where something is asked of them
  have hplaintext : (ofPrimes exampleP exampleQ >>= fun sk => sk.publicKey.checkPlaintext 5) = .ok () := by
    decide +kernel
  have hnonce : (ofPrimes exampleP exampleQ >>= fun sk => sk.publicKey.checkNonce 2) = .ok () := by decide +kernel
  have htwo : (ofPrimes exampleP exampleQ >>= fun sk => sk.publicKey.checkCiphertext 2) = .ok () := by decide +kernel
  have hdecrypt : (ofPrimes exampleP exampleQ >>= fun sk => sk.decrypt 2) ≠ .ok 0 := by decide +kernel
  have hone : (ofPrimes (2 ^ 128 - 173 : Nat) (2 ^ 128 - 233 : Nat) >>= fun sk => sk.publicKey.checkCiphertext 1) =
      .ok () := by decide +kernel
  rw [hsk, ok_bind] at hplaintext hnonce htwo hdecrypt
  obtain ⟨sk', hsk', hone⟩ := bind_eq_ok.mp hone
  obtain ⟨⟨-, hencrypt⟩, hblank, hsame, hbytes, -⟩ := wiped_gives_nothing_away hsk hsk'
  obtain ⟨hzero, hequal⟩ := hsame 2 1 htwo hone
  exact ⟨sk, sk', hsk, hsk', hplaintext, hnonce, htwo, hone, hdecrypt, hencrypt 5 2 hplaintext hnonce, hzero, hequal,
    hbytes, hblank.ofJson_refused⟩

end PrivateKey

end Paillier
