import Paillier.Proofs.Answer
import Paillier.Proofs.Ciphertext.Closure
import Paillier.Proofs.Format.KeyBytes

/-!
# Using a key

A modulus of 2048 bits has a square that fills all the room there is, so whatever is computed with a key has to be
reduced before it grows. It is: every operation of an accepted key ends in a value or a refusal, for all numbers, bytes,
buffers and sources, however long or negative they are. What is out of place is turned down before it is computed with.

Nothing is asked of the factors of the modulus, so nothing is assumed of the primality test.

## Main statements

* `PublicKey.Sound.hasRoom` — the sizes that the arithmetic relies on.
* `PublicKey.Sound.answers`, `PrivateKey.answers_of_ofPrimes` — every operation answers.
* `using_keys_answers` — that holds of every key that is accepted.
-/

namespace Paillier

open Number (positive)
open Outcome (Answered)

/-! ## Residues -/

/-- The number is written for a natural number below `n`. -/
def Number.IsBelow (a : Number) (n : Nat) : Prop := ∃ k < n, a.Denotes k

theorem Number.isBelow_ofNat {k n : Nat} (h : k < n) : (k : Number).IsBelow n := ⟨k, h, denotes_ofNat k⟩

namespace Residue

variable {n : Number}

theorem settled_lt {sign : Sign} {residue m : Nat} (h : residue < m) : settled sign residue m < m := by
  unfold settled
  split
  · exact Nat.mod_lt _ (Nat.lt_of_le_of_lt (Nat.zero_le _) h)
  · exact h

/-- **Modulo an odd number there is always a product**, whatever the factors are. -/
theorem exists_mul_eq (a b : Number) (hn : n.magnitude % 2 = 1) : ∃ k < n.magnitude, mul a b n = .ok (k : Nat) := by
  have hresidue : a.magnitude * b.magnitude % n.magnitude < n.magnitude := Nat.mod_lt _ (by omega)
  refine ⟨settled (a.sign * b.sign) _ _, settled_lt hresidue, ?_⟩
  rw [mul, if_neg (by omega)]

/-- **And always a power**; where an inverse is missing it is zero. -/
theorem exists_pow_eq (a e : Number) (hn : n.magnitude % 2 = 1) : ∃ k < n.magnitude, pow a e n = .ok (k : Nat) := by
  have hpos : 0 < n.magnitude := by omega
  have hpower : ∀ b : Nat, powMod b e.magnitude n.magnitude < n.magnitude := by
    intro b
    rw [powMod_eq]
    exact Nat.mod_lt _ hpos
  rw [pow, if_neg (by omega)]
  dsimp only
  split
  · split
    · exact ⟨_, hpower _, rfl⟩
    · exact ⟨0, hpos, rfl⟩
  · exact ⟨_, hpower _, rfl⟩

end Residue

/-! ## Buffers -/

/-- All of something was written to the front of the buffer, or it is as it was. Either way it keeps its length. -/
inductive WrittenTo (buffer : Bytes) : WriteOutcome × Bytes → Prop
  | written {data : Bytes} (fits : data.length ≤ buffer.length) :
    WrittenTo buffer (.written data.length, data ++ buffer.drop data.length)
  | required {count : Nat} (short : buffer.length < count) : WrittenTo buffer (.required count, buffer)

theorem WrittenTo.length_eq {buffer : Bytes} {result : WriteOutcome × Bytes} (h : WrittenTo buffer result) :
    result.2.length = buffer.length := by
  cases h with
  | written fits =>
    rw [List.length_append, List.length_drop]
    omega
  | required short => rfl

theorem writeInto_of_le {data buffer : Bytes} (h : data.length ≤ buffer.length) :
    writeInto data buffer = (.written data.length, data ++ buffer.drop data.length) := if_neg (Nat.not_lt.mpr h)

theorem writeInto_of_lt {data buffer : Bytes} (h : buffer.length < data.length) :
    writeInto data buffer = (.required data.length, buffer) := if_pos h

theorem writtenTo_writeInto (data buffer : Bytes) : WrittenTo buffer (writeInto data buffer) := by
  rcases Nat.lt_or_ge buffer.length data.length with h | h
  · rw [writeInto_of_lt h]
    exact .required h
  · rw [writeInto_of_le h]
    exact .written h

/-! ## Public keys -/

namespace PublicKey

/--
What the arithmetic relies on. The moduli of products and powers are odd, so neither is zero; the square can be held,
and so can the sum of a residue and one; what has the length of a plaintext or ciphertext can be read as a number; and a
minus passes no check.
-/
structure HasRoom (pk : PublicKey) : Prop where
  modulus_odd : pk.modulus.magnitude % 2 = 1
  modulusSquared_odd : pk.modulusSquared.magnitude % 2 = 1
  modulusSquared_fits : Fits pk.modulusSquared
  succ_fits : ∀ k : Nat, k < pk.modulusSquared.magnitude → Fits (k + 1 : Nat)
  plaintextLength_le : pk.plaintextLength ≤ capacityBytes
  ciphertextLength_le : pk.ciphertextLength ≤ capacityBytes
  plaintext_sign : ∀ m, pk.checkPlaintext m = .ok () → m.sign ≠ .minus
  nonce_sign : ∀ r, pk.checkNonce r = .ok () → r.sign ≠ .minus
  ciphertext_sign : ∀ c, pk.checkCiphertext c = .ok () → c.sign ≠ .minus

/-- Each operation ends in a value or a refusal, for all arguments and every source. -/
structure Answers (pk : PublicKey) : Prop where
  encrypt : ∀ m, (pk.encrypt m).Answers (Number.IsBelow · (pk.n * pk.n))
  encryptWithNonce : ∀ m r, Answered (Number.IsBelow · (pk.n * pk.n)) (pk.encryptWithNonce m r)
  encryptBytes : ∀ plaintext, (pk.encryptBytes plaintext).Answers fun c => c.length ≤ pk.ciphertextLength
  encryptInto : ∀ plaintext buffer, (pk.encryptInto plaintext buffer).Answers (WrittenTo buffer)
  add : ∀ c d, Answered (Number.IsBelow · (pk.n * pk.n)) (pk.add c d)
  sub : ∀ c d, Answered (Number.IsBelow · (pk.n * pk.n)) (pk.sub c d)
  addScalar : ∀ c a, (pk.addScalar c a).Answers (Number.IsBelow · (pk.n * pk.n))
  subScalar : ∀ c a, (pk.subScalar c a).Answers (Number.IsBelow · (pk.n * pk.n))
  mulScalar : ∀ c a, Answered (Number.IsBelow · (pk.n * pk.n)) (pk.mulScalar c a)
  ciphertextOfBytes : ∀ data, Answered (Number.IsBelow · (pk.n * pk.n)) (pk.ciphertextOfBytes data)
  toBytes : ∃ data, pk.toBytes = .ok data
  writeTo : ∀ buffer, ∃ result, pk.writeTo buffer = .ok result ∧ WrittenTo buffer result

/-! ### Checks -/

section

variable (pk : PublicKey)

theorem answered_checkPlaintext (m : Number) : Answered (fun _ => True) (pk.checkPlaintext m) :=
  (Answered.check _ _).mono fun _ _ => trivial

theorem answered_checkNonce (r : Number) : Answered (fun _ => True) (pk.checkNonce r) :=
  (Answered.check _ _).mono fun _ _ => trivial

theorem answered_checkCiphertext (c : Number) : Answered (fun _ => True) (pk.checkCiphertext c) :=
  (Answered.check _ _).mono fun _ _ => trivial

end

namespace Sound

variable {pk : PublicKey}

theorem byteLength_le_capacityBytes {n : Nat} (h : n < 2 ^ capacityBits) : byteLength n ≤ capacityBytes :=
  bytesForBits_le_capacityBytes_iff.mpr (bitLength_le_iff.mpr h)

/-- **A square of 4096 bits leaves room for everything that is computed with it.** It is odd, so it is not the largest
number there is. -/
theorem hasRoom (h : pk.Sound) : pk.HasRoom where
  modulus_odd := h.odd
  modulusSquared_odd := h.modulusSquared_odd
  modulusSquared_fits := fits_iff.mpr h.fits
  succ_fits := fun k hk => by
    rw [fits_iff, Number.magnitude_ofNat]
    exact Nat.lt_of_le_of_lt hk h.fits
  plaintextLength_le := byteLength_le_capacityBytes h.lt_capacity
  ciphertextLength_le := byteLength_le_capacityBytes h.fits
  plaintext_sign := fun _ hm => sign_ne_minus_of_checkPlaintext hm
  nonce_sign := fun r hr => by
    obtain ⟨j, hj⟩ := h.exists_validNonce hr
    exact hj.denotes.sign_ne_minus
  ciphertext_sign := fun _ hc => sign_ne_minus_of_checkCiphertext hc

/-! ### Numbers -/

theorem mul_answered (h : pk.Sound) (a b : Number) :
    Answered (Number.IsBelow · (pk.n * pk.n)) (Residue.mul a b pk.modulusSquared) := by
  obtain ⟨k, hk, heq⟩ := Residue.exists_mul_eq a b h.modulusSquared_odd
  exact .of_eq_ok heq (Number.isBelow_ofNat hk)

theorem pow_answered (h : pk.Sound) (a e : Number) :
    Answered (Number.IsBelow · (pk.n * pk.n)) (Residue.pow a e pk.modulusSquared) := by
  obtain ⟨k, hk, heq⟩ := Residue.exists_pow_eq a e h.modulusSquared_odd
  exact .of_eq_ok heq (Number.isBelow_ofNat hk)

theorem invertCiphertext_answered (c : Number) : Answered (fun _ => True) (pk.invertCiphertext c) := by
  unfold invertCiphertext
  split
  · exact .value trivial
  · exact .refused _

theorem encryptUnchecked_answered (h : pk.Sound) (m r : Number) :
    Answered (Number.IsBelow · (pk.n * pk.n)) (pk.encryptUnchecked m r) := by
  refine (h.mul_answered m pk.modulus).bind fun mN _ => ?_
  exact (h.pow_answered r pk.modulus).bind fun mask _ => h.mul_answered _ mask

theorem encryptWithNonce_answered (h : pk.Sound) (m r : Number) :
    Answered (Number.IsBelow · (pk.n * pk.n)) (pk.encryptWithNonce m r) := by
  refine (pk.answered_checkPlaintext m).bind fun _ _ => ?_
  exact (pk.answered_checkNonce r).bind fun _ _ => h.encryptUnchecked_answered m r

theorem encrypt_answers (h : pk.Sound) (m : Number) : (pk.encrypt m).Answers (Number.IsBelow · (pk.n * pk.n)) := by
  have hpair : (pk.encryptKeepingNonce m).Answers fun pair => pair.1.IsBelow (pk.n * pk.n) := by
    refine (Sampler.answers_outcome (pk.answered_checkPlaintext m)).bind fun _ _ => ?_
    refine h.yields_randomNonce.answers.bind fun r _ => ?_
    refine (Sampler.answers_outcome (h.encryptUnchecked_answered m r)).bind fun c hc => ?_
    exact Sampler.answers_pure hc
  exact hpair.bind fun pair hc => Sampler.answers_pure hc

/-! ### Arithmetic on ciphertexts -/

theorem add_answered (h : pk.Sound) (c d : Number) : Answered (Number.IsBelow · (pk.n * pk.n)) (pk.add c d) := by
  refine (pk.answered_checkCiphertext c).bind fun _ _ => ?_
  exact (pk.answered_checkCiphertext d).bind fun _ _ => h.mul_answered c d

theorem sub_answered (h : pk.Sound) (c d : Number) : Answered (Number.IsBelow · (pk.n * pk.n)) (pk.sub c d) := by
  refine (pk.answered_checkCiphertext c).bind fun _ _ => ?_
  refine (pk.answered_checkCiphertext d).bind fun _ _ => ?_
  exact (invertCiphertext_answered d).bind fun inverse _ => h.mul_answered c inverse

theorem mulScalar_answered (h : pk.Sound) (c a : Number) :
    Answered (Number.IsBelow · (pk.n * pk.n)) (pk.mulScalar c a) := by
  refine (pk.answered_checkCiphertext c).bind fun _ _ => ?_
  exact (pk.answered_checkPlaintext a).bind fun _ _ => h.pow_answered c a

theorem addScalar_answers (h : pk.Sound) (c a : Number) :
    (pk.addScalar c a).Answers (Number.IsBelow · (pk.n * pk.n)) := by
  refine (Sampler.answers_outcome (pk.answered_checkCiphertext c)).bind fun _ _ => ?_
  refine (Sampler.answers_outcome (pk.answered_checkPlaintext a)).bind fun _ _ => ?_
  exact (h.encrypt_answers a).bind fun ca _ => Sampler.answers_outcome (h.mul_answered c ca)

theorem subScalar_answers (h : pk.Sound) (c a : Number) :
    (pk.subScalar c a).Answers (Number.IsBelow · (pk.n * pk.n)) := by
  refine (Sampler.answers_outcome (pk.answered_checkCiphertext c)).bind fun _ _ => ?_
  refine (Sampler.answers_outcome (pk.answered_checkPlaintext a)).bind fun _ _ => ?_
  refine (h.encrypt_answers a).bind fun ca _ => ?_
  refine (Sampler.answers_outcome (invertCiphertext_answered ca)).bind fun inverse _ => ?_
  exact Sampler.answers_outcome (h.mul_answered c inverse)

/-! ### Bytes -/

/-- Bytes that are not longer than a residue can be are read as a number. -/
theorem numberOfBytes_answered {data : Bytes} {n : Nat} (hn : n < 2 ^ capacityBits)
    (hlen : ¬ byteLength n < data.length) : Answered (fun _ => True) (numberOfBytes data) :=
  .of_eq_ok (numberOfBytes_eq_ok (Nat.le_trans (Nat.not_lt.mp hlen) (byteLength_le_capacityBytes hn))) trivial

theorem plaintextOfBytes_answered (h : pk.Sound) (data : Bytes) :
    Answered (fun _ => True) (pk.plaintextOfBytes data) := by
  refine .ite_refuse fun _ => .ite_refuse fun hlen => ?_
  refine (numberOfBytes_answered h.lt_capacity hlen).bind fun m _ => ?_
  exact (pk.answered_checkPlaintext m).bind fun _ _ => .value trivial

theorem ciphertextOfBytes_answered (h : pk.Sound) (data : Bytes) :
    Answered (Number.IsBelow · (pk.n * pk.n)) (pk.ciphertextOfBytes data) := by
  refine .ite_refuse fun _ => .ite_refuse fun hlen => ?_
  have hread := numberOfBytes_eq_ok (Nat.le_trans (Nat.not_lt.mp hlen) (byteLength_le_capacityBytes h.fits))
  rw [hread, ok_bind, h.modulusSquared_eq]
  split
  · next hresidue =>
    have hlt := (isResidue_iff.mp hresidue).2
    exact .value ⟨_, Number.positive_lt_positive.mp hlt, Number.denotes_positive _⟩
  · exact .refused _

/-- A ciphertext takes at most as many bytes as the square of the modulus. -/
theorem length_le_of_isBelow {c : Number} (hc : c.IsBelow (pk.n * pk.n)) :
    (bigEndian c.magnitude).length ≤ pk.ciphertextLength := by
  obtain ⟨k, hk, hdenotes⟩ := hc
  rw [length_bigEndian, hdenotes.magnitude_natCast]
  exact byteLength_mono (Nat.le_of_lt hk)

theorem encryptBytes_answers (h : pk.Sound) (plaintext : Bytes) :
    (pk.encryptBytes plaintext).Answers fun c => c.length ≤ pk.ciphertextLength := by
  refine (Sampler.answers_outcome (h.plaintextOfBytes_answered plaintext)).bind fun m _ => ?_
  exact (h.encrypt_answers m).bind fun c hc => Sampler.answers_pure (length_le_of_isBelow hc)

theorem encryptInto_answers (h : pk.Sound) (plaintext buffer : Bytes) :
    (pk.encryptInto plaintext buffer).Answers (WrittenTo buffer) := by
  refine (Sampler.answers_outcome (h.plaintextOfBytes_answered plaintext)).bind fun m _ => ?_
  split
  · next hshort => exact Sampler.answers_pure (.required hshort)
  · exact (h.encrypt_answers m).bind fun c _ => Sampler.answers_pure (writtenTo_writeInto _ buffer)

theorem exists_toBytes_eq (h : pk.Sound) : ∃ data, pk.toBytes = .ok data := by
  obtain ⟨data, hdata, -⟩ := PublicKey.exists_toBytes (mul_self_lt_capacity_iff.mp h.fits)
  rw [← h.modulus_eq] at hdata
  exact ⟨data, hdata⟩

/-- **Every operation of a sound key answers.** -/
theorem answers (h : pk.Sound) : pk.Answers where
  encrypt := h.encrypt_answers
  encryptWithNonce := h.encryptWithNonce_answered
  encryptBytes := h.encryptBytes_answers
  encryptInto := h.encryptInto_answers
  add := h.add_answered
  sub := h.sub_answered
  addScalar := h.addScalar_answers
  subScalar := h.subScalar_answers
  mulScalar := h.mulScalar_answered
  ciphertextOfBytes := h.ciphertextOfBytes_answered
  toBytes := h.exists_toBytes_eq
  writeTo := fun buffer => by
    obtain ⟨data, hdata⟩ := h.exists_toBytes_eq
    refine ⟨writeInto data buffer, ?_, writtenTo_writeInto data buffer⟩
    rw [writeTo, hdata]
    rfl

end Sound

end PublicKey

/-! ## Private keys -/

namespace PrivateKey

/-- Each operation of the private half ends in a value or a refusal, for all arguments. -/
structure Answers (sk : PrivateKey) : Prop where
  decrypt : ∀ c, Answered (Number.IsBelow · sk.publicKey.n) (sk.decrypt c)
  decryptBytes : ∀ data,
    Answered (fun m => 1 ≤ m.length ∧ m.length ≤ sk.publicKey.plaintextLength) (sk.decryptBytes data)
  decryptWord : ∀ c, Answered (fun _ => True) (sk.decryptWord c)
  toBytes : ∃ data, sk.toBytes = .ok data
  writeTo : ∀ buffer, ∃ result, sk.writeTo buffer = .ok result ∧ WrittenTo buffer result

end PrivateKey

/-- **The function `L` answers**: what is one modulo `N` is not zero, so one can be taken off, and `N` is not zero. -/
theorem PublicKey.Sound.quotientOf_answered {pk : PublicKey} (h : pk.Sound) {x : Number}
    (hx : x.IsBelow (pk.n * pk.n)) : Answered (fun _ => True) (pk.quotientOf x) := by
  have hne : ¬ pk.modulus.isZero = true := by
    rw [Number.isZero, beq_iff_eq]
    exact Nat.ne_of_gt h.pos
  obtain ⟨k, hk, hdenotes⟩ := hx
  rw [quotientOf, if_neg hne]
  refine .ite_refuse fun hone => ?_
  rw [Classical.not_not, hdenotes.magnitude_natCast] at hone
  have hpos : 1 ≤ k := by
    rcases Nat.eq_zero_or_pos k with rfl | hpos
    · rw [Nat.zero_mod] at hone
      exact absurd hone Nat.zero_ne_one
    · exact hpos
  have hrest : difference x 1 = .ok (k - 1 : Nat) := by
    rw [hdenotes.eq_positive hpos, show (1 : Number) = positive 1 from rfl,
      difference_positive hpos (Nat.lt_trans hk h.fits)]
  rw [hrest]
  exact .value trivial

namespace PrivateKey

variable {sk : PrivateKey}

/-- Whatever `λ` and `μ` are, decryption answers. -/
theorem decrypt_answered (h : sk.publicKey.Sound) (c : Number) :
    Answered (Number.IsBelow · sk.publicKey.n) (sk.decrypt c) := by
  refine (sk.publicKey.answered_checkCiphertext c).bind fun _ _ => ?_
  refine (h.pow_answered c sk.lambda).bind fun a ha => ?_
  refine (h.quotientOf_answered ha).bind fun l _ => ?_
  obtain ⟨m, hm, heq⟩ := Residue.exists_mul_eq l sk.mu h.odd
  exact .of_eq_ok heq (Number.isBelow_ofNat hm)

theorem decryptBytes_answered (h : sk.publicKey.Sound) (data : Bytes) :
    Answered (fun m => 1 ≤ m.length ∧ m.length ≤ sk.publicKey.plaintextLength) (sk.decryptBytes data) := by
  refine (h.ciphertextOfBytes_answered data).bind fun c _ => ?_
  refine (decrypt_answered h c).bind ?_
  rintro m ⟨k, hk, hdenotes⟩
  have hblock : 1 ≤ largestBlock := by decide
  -- at most one zero is put in front, so that zero is a byte as well
  obtain ⟨data, hdata⟩ := exists_paddedNumber_iff.mpr
    ⟨Nat.le_max_right 1 (byteLength m.magnitude), by omega⟩
  obtain ⟨-, hlen, -⟩ := paddedNumber_eq_ok_iff.mp hdata
  have hm : byteLength m.magnitude ≤ sk.publicKey.plaintextLength := by
    rw [hdenotes.magnitude_natCast]
    exact byteLength_mono (Nat.le_of_lt hk)
  have hpos : 1 ≤ sk.publicKey.plaintextLength := lt_byteLength_iff.mpr h.pos
  refine .of_eq_ok hdata ?_
  omega

theorem decryptWord_answered (h : sk.publicKey.Sound) (c : Number) :
    Answered (fun _ => True) (sk.decryptWord c) := by
  refine (decrypt_answered h c).bind fun m _ => ?_
  split
  · exact .value trivial
  · exact .refused _

/-- The public half of an accepted key is sound, whether the two numbers are primes or not: their residues modulo 8
make them odd. -/
theorem sound_publicKey_of_ofPrimes {p q : Nat} (h : ofPrimes p q = .ok sk) : sk.publicKey.Sound := by
  obtain ⟨-, hresp, hresq, -, -, hunchecked, -⟩ := ofPrimes_eq_ok h
  have hfits := fits_of_ofPrimesUnchecked hunchecked
  obtain ⟨-, -, hn, -⟩ := ofPrimesUnchecked_eq_ok hunchecked
  rw [Number.magnitude_ofNat] at hresp hfits
  rw [Number.magnitude_ofNat] at hresq hfits
  have hcap : p * q < 2 ^ capacityBits := Nat.lt_of_le_of_lt (Nat.le_mul_self _) hfits
  rw [Number.ofNat_of_pos (by omega), Number.ofNat_of_pos (by omega), product_positive hcap, Except.ok.injEq] at hn
  have hvalue : sk.publicKey.n = p * q := by
    rw [PublicKey.n, ← hn]
    rfl
  constructor
  · rw [← hn]
    rfl
  · rw [hvalue, Nat.mul_mod, show p % 2 = 1 by omega, show q % 2 = 1 by omega]
  · rw [hvalue]
    exact Nat.lt_of_lt_of_le (by omega : 1 < p) (Nat.le_mul_of_pos_right p (by omega))
  · rw [hvalue]
    exact hfits

/-- **Every operation of an accepted key answers.** -/
theorem answers_of_ofPrimes {p q : Nat} (h : ofPrimes p q = .ok sk) : sk.Answers where
  decrypt := decrypt_answered (sound_publicKey_of_ofPrimes h)
  decryptBytes := decryptBytes_answered (sound_publicKey_of_ofPrimes h)
  decryptWord := decryptWord_answered (sound_publicKey_of_ofPrimes h)
  toBytes := by
    obtain ⟨data, hdata, -⟩ := exists_toBytes_of_ofPrimes h
    exact ⟨data, hdata⟩
  writeTo := fun buffer => by
    obtain ⟨data, hdata, -⟩ := exists_toBytes_of_ofPrimes h
    refine ⟨writeInto data buffer, ?_, writtenTo_writeInto data buffer⟩
    rw [writeTo, hdata]
    rfl

end PrivateKey

/-! ## Accepted keys -/

/--
**Using a key that was accepted never has to be given up.**

The first part is about public keys and the second about private ones, whose public half is used like any other. The
numbers may be any at all, with any sign or none; the bytes and buffers may have any length and the source may end
anywhere.
-/
theorem using_keys_answers :
    (∀ (n : Nat) (pk : PublicKey), PublicKey.ofModulus n = .ok pk → pk.HasRoom ∧ pk.Answers) ∧
    ∀ (p q : Nat) (sk : PrivateKey), PrivateKey.ofPrimes p q = .ok sk →
      sk.publicKey.HasRoom ∧ sk.publicKey.Answers ∧ sk.Answers := by
  refine ⟨fun n pk hpk => ?_, fun p q sk hsk => ?_⟩
  · obtain ⟨hsound, -⟩ := PublicKey.sound_of_ofModulus hpk
    exact ⟨hsound.hasRoom, hsound.answers⟩
  · have hsound := PrivateKey.sound_publicKey_of_ofPrimes hsk
    exact ⟨hsound.hasRoom, hsound.answers, PrivateKey.answers_of_ofPrimes hsk⟩

/-- The key of the example, asked to decrypt more bytes than can be read as a number, and to add negative numbers. -/
theorem using_keys_answers_example :
    ∃ (pk : PublicKey) (sk : PrivateKey),
      PublicKey.ofModulus (exampleP * exampleQ : Nat) = .ok pk ∧ PrivateKey.ofPrimes exampleP exampleQ = .ok sk ∧
      pk.HasRoom ∧ ¬ (pk.add (.ofInt (-1)) (.ofInt (-2))).Faults ∧
      ¬ (sk.decryptBytes (List.replicate 513 1)).Faults ∧ ∃ data, sk.toBytes = .ok data := by
  obtain ⟨hpublic, hprivate⟩ := using_keys_answers
  obtain ⟨pk, hpk⟩ := PublicKey.exists_ofModulus_example
  obtain ⟨sk, hsk⟩ := PrivateKey.exists_ofPrimes_example
  obtain ⟨hroom, hanswers⟩ := hpublic _ _ hpk
  obtain ⟨-, -, hsanswers⟩ := hprivate _ _ _ hsk
  exact ⟨pk, sk, hpk, hsk, hroom, (hanswers.add _ _).not_faults, (hsanswers.decryptBytes _).not_faults,
    hsanswers.toBytes⟩

end Paillier
