import Paillier.Proofs.Ciphertext.Decryption
import Paillier.Proofs.Key.Use
import Paillier.Proofs.Randomness.Draw

/-!
# Plaintexts and ciphertexts as bytes

The operations on bytes have checks of their own in front of those on numbers: there has to be a byte, and not more of
them than the modulus, or its square, has. Beyond that a byte string is taken for its value, whatever zeros are in
front, and a plaintext comes back in its canonical form. So what was decrypted can be encrypted as it stands.

## Main statements

* `PublicKey.Sound.plaintextOfBytes_eq`, `ciphertextOfBytes_eq` — which byte strings are read.
* `PrivateKey.decryptBytes_eq` — decryption of bytes is decryption of their value.
* `PublicKey.Sound.exists_valid_of_returns` — what an operation returns is a unit in `[1, N²)`, so it has bytes.
* `plaintextBytes_roundTrip`, `ciphertextBytes_agree` — what that means for keys that were accepted.
-/

namespace Paillier

open Number (positive)
open Residuosity

/-! ## Canonical form -/

/-- The shortest form that has a byte. -/
def canonicalBytes (n : Nat) : Bytes := if n = 0 then [0] else bigEndian n

theorem length_canonicalBytes (n : Nat) : (canonicalBytes n).length = max 1 (byteLength n) := by
  unfold canonicalBytes
  split
  · next hzero =>
    rw [hzero]
    rfl
  · next hne =>
    have hpos : 0 < byteLength n := lt_byteLength_iff.mpr (Nat.pos_of_ne_zero hne)
    rw [length_bigEndian, Nat.max_eq_right hpos]

theorem canonicalBytes_ne_nil (n : Nat) : canonicalBytes n ≠ [] := by
  have hlen := length_canonicalBytes n
  intro hnil
  rw [hnil, List.length_nil] at hlen
  omega

@[simp] theorem ofBigEndian_canonicalBytes (n : Nat) : ofBigEndian (canonicalBytes n) = n := by
  unfold canonicalBytes
  split
  · next hzero =>
    rw [hzero]
    rfl
  · exact ofBigEndian_bigEndian n

/-- A number below `n` takes at most as many bytes as `n`. -/
theorem length_canonicalBytes_le {m n : Nat} (h : m < n) : (canonicalBytes m).length ≤ byteLength n := by
  have hpos : 0 < byteLength n := lt_byteLength_iff.mpr (Nat.zero_lt_of_lt h)
  have hmono := byteLength_mono (Nat.le_of_lt h)
  rw [length_canonicalBytes]
  omega

/-- Padding to one byte at least gives the canonical form. -/
theorem paddedNumber_canonical (a : Number) :
    paddedNumber a (max 1 (byteLength a.magnitude)) = .ok (canonicalBytes a.magnitude) := by
  refine paddedNumber_eq_ok_iff.mpr ⟨?_, length_canonicalBytes _, ofBigEndian_canonicalBytes _⟩
  -- at most one zero is put in front
  have hone : max 1 (byteLength a.magnitude) - byteLength a.magnitude ≤ 1 := by omega
  exact Nat.le_trans hone (by decide)

/-! ## Reading -/

section

variable {n : Nat} {data : Bytes}

theorem isResidue_positive {m : Nat} : isResidue (positive m) (positive n) = true ↔ m < n := by
  rw [isResidue_iff, Number.positive_lt_positive]
  exact and_iff_right rfl

/-- The bytes are there, but not more of them than `n` has, and their value is below `n`. -/
def AreBelow (data : Bytes) (n : Nat) : Prop := data.length ≤ byteLength n ∧ ofBigEndian data < n

instance (data : Bytes) (n : Nat) : Decidable (AreBelow data n) := inferInstanceAs (Decidable (_ ∧ _))

/-- Both readers refuse no bytes at all, then too many of them, and then leave the value to a check. -/
theorem read_eq (hn : n < 2 ^ capacityBits) {cause : Error} {check : Number → Outcome Number}
    (hcheck : check (positive (ofBigEndian data)) =
      if ofBigEndian data < n then .ok (positive (ofBigEndian data)) else refuse cause) :
    (if data.isEmpty then refuse .invalidParameter
      else if byteLength n < data.length then refuse cause
      else numberOfBytes data >>= check) =
      if data = [] then refuse .invalidParameter
      else if AreBelow data n then .ok (positive (ofBigEndian data)) else refuse cause := by
  refine if_congr List.isEmpty_iff rfl ?_
  by_cases hlen : data.length ≤ byteLength n
  · have hread := numberOfBytes_eq_ok (Nat.le_trans hlen (PublicKey.Sound.byteLength_le_capacityBytes hn))
    rw [if_neg (Nat.not_lt.mpr hlen), hread, ok_bind, hcheck]
    exact if_congr (and_iff_right hlen).symm rfl rfl
  · rw [if_pos (Nat.not_le.mp hlen), if_neg (fun hbelow : AreBelow data n => hlen hbelow.1)]

end

namespace PublicKey.Sound

variable {pk : PublicKey}

/-- **A plaintext is read if it is not empty, not longer than the modulus and below it.** -/
theorem plaintextOfBytes_eq (h : pk.Sound) (data : Bytes) :
    pk.plaintextOfBytes data =
      if data = [] then refuse .invalidParameter
      else if AreBelow data pk.n then .ok (positive (ofBigEndian data)) else refuse .invalidPlaintext := by
  refine read_eq h.lt_capacity ?_
  rw [h.checkPlaintext_eq (Number.denotes_positive _)]
  by_cases hlt : ofBigEndian data < pk.n
  · rw [if_pos (by omega), if_pos hlt]
    rfl
  · rw [if_neg (by omega), if_neg hlt]
    rfl

/-- **A ciphertext is read if it is not empty, not longer than the square and below it.** -/
theorem ciphertextOfBytes_eq (h : pk.Sound) (data : Bytes) :
    pk.ciphertextOfBytes data =
      if data = [] then refuse .invalidParameter
      else if AreBelow data (pk.n * pk.n) then .ok (positive (ofBigEndian data)) else refuse .invalidCiphertext := by
  refine read_eq h.fits ?_
  rw [h.modulusSquared_eq]
  exact if_congr isResidue_positive rfl rfl

theorem plaintextOfBytes_eq_ok (h : pk.Sound) {data : Bytes} (hne : data ≠ []) (hbelow : AreBelow data pk.n) :
    pk.plaintextOfBytes data = .ok (positive (ofBigEndian data)) := by
  rw [h.plaintextOfBytes_eq, if_neg hne, if_pos hbelow]

/-- A value above zero needs a byte, and a number above zero has a single form. -/
theorem ciphertextOfBytes_eq_ok (h : pk.Sound) {c : Number} {data : Bytes} (hc : c.Denotes (ofBigEndian data))
    (hone : 1 ≤ ofBigEndian data) (hbelow : AreBelow data (pk.n * pk.n)) : pk.ciphertextOfBytes data = .ok c := by
  have hne : data ≠ [] := by
    rintro rfl
    exact Nat.not_succ_le_zero 0 hone
  rw [h.ciphertextOfBytes_eq, if_neg hne, if_pos hbelow, hc.eq_positive hone]

end PublicKey.Sound

/-- The number has bytes, not more than the square, and is read from them with any zeros in front. -/
structure PublicKey.HasBytes (pk : PublicKey) (c : Number) : Prop where
  one_le_length : 1 ≤ (bigEndian c.magnitude).length
  length_le : (bigEndian c.magnitude).length ≤ pk.ciphertextLength
  read (zeros : Nat) (hlen : zeros + (bigEndian c.magnitude).length ≤ pk.ciphertextLength) :
    pk.ciphertextOfBytes (List.replicate zeros 0 ++ bigEndian c.magnitude) = .ok c

/-- **Numbers in `[1, N²)` have bytes.** -/
theorem PublicKey.Sound.hasBytes {pk : PublicKey} (h : pk.Sound) {c : Number} {k : Nat} (hc : c.Denotes k)
    (hone : 1 ≤ k) (hlt : k < pk.n * pk.n) : pk.HasBytes c := by
  obtain rfl := hc.magnitude_natCast
  refine ⟨?_, ?_, fun zeros hlen => ?_⟩
  · rw [length_bigEndian]
    exact lt_byteLength_iff.mpr hone
  · rw [length_bigEndian]
    exact byteLength_mono (Nat.le_of_lt hlt)
  · have hvalue : ofBigEndian (List.replicate zeros 0 ++ bigEndian c.magnitude) = c.magnitude := by
      rw [ofBigEndian_replicate_zero_append, ofBigEndian_bigEndian]
    refine h.ciphertextOfBytes_eq_ok ?_ ?_ ⟨?_, ?_⟩
    · rwa [hvalue]
    · rwa [hvalue]
    · rwa [List.length_append, List.length_replicate]
    · rwa [hvalue]

/-! ## Encryption of bytes -/

namespace PublicKey

variable {pk : PublicKey} {data : Bytes}

/-- Bytes that are not read cost no entropy. -/
theorem runOn_encryptBytes_of_refuse {cause : Error} (hread : pk.plaintextOfBytes data = refuse cause)
    (source : Source) : (pk.encryptBytes data).runOn source = (refuse cause, source) := by
  rw [encryptBytes, hread]
  rfl

/-- **What may come out is an encryption with one of the nonces, and all of them occur.** -/
theorem Sound.outputs_encryptBytes (h : pk.Sound) (hne : data ≠ []) (hbelow : AreBelow data pk.n) :
    (pk.encryptBytes data).outputs =
      (fun j => bigEndian (encryption pk.n (ofBigEndian data) j)) '' pk.nonces := by
  have hencrypt := h.outputs_encrypt (Number.denotes_positive (ofBigEndian data)) hbelow.2
  rw [encryptBytes, h.plaintextOfBytes_eq_ok hne hbelow, Sampler.liftM_ok_bind, Sampler.outputs_bind_pure, hencrypt,
    Set.image_image]
  simp only [Number.magnitude_ofNat]

theorem Sound.yields_encryptBytes (h : pk.Sound) (hne : data ≠ []) (hbelow : AreBelow data pk.n) :
    (pk.encryptBytes data).Yields pk.plaintextLength fun c =>
      ∃ j : Nat, j.Coprime pk.n ∧ c = bigEndian (encryption pk.n (ofBigEndian data) j) := by
  refine Sampler.Yields.bind_outcome (h.plaintextOfBytes_eq_ok hne hbelow) ?_
  refine (h.yields_encrypt (Number.denotes_positive _) hbelow.2).bind ?_
  rintro _ ⟨r, j, hr, rfl⟩
  refine Sampler.yields_pure ⟨j, hr.coprime, ?_⟩
  rw [Number.magnitude_ofNat]

end PublicKey

/-! ## Decryption of bytes -/

namespace PrivateKey

variable {sk : PrivateKey} {c d : Number} {data : Bytes} {z : Int}

theorem decrypt_of_not_isCiphertext (h : sk.publicKey.Sound) (hc : c.Denotes z)
    (hz : ¬ PublicKey.IsCiphertext sk.publicKey.n z) : sk.decrypt c = refuse .invalidCiphertext := by
  rw [← hc.toInt_eq] at hz
  rw [decrypt, h.check_eq_refuse hc.isSigned hz, refuse_bind]

/-- **Decryption looks at the integer, not at how it is written.** -/
theorem decrypt_congr (h : sk.publicKey.Sound) (hc : c.Denotes z) (hd : d.Denotes z) :
    sk.decrypt c = sk.decrypt d := by
  by_cases hz : PublicKey.IsCiphertext sk.publicKey.n z
  · -- a unit is not zero, so it has a single form
    rw [← hc.toInt_eq] at hz
    obtain ⟨k, hk⟩ := h.exists_valid hc.isSigned hz
    have hpos := h.one_le_of_coprime hk.coprime
    obtain rfl : z = k := by rw [← hc.toInt_eq, hk.denotes.toInt_eq]
    rw [hc.eq_positive hpos, hd.eq_positive hpos]
  · rw [decrypt_of_not_isCiphertext h hc hz, decrypt_of_not_isCiphertext h hd hz]

/-- **Decryption of bytes is decryption of their value**, with the plaintext in canonical form. -/
theorem decryptBytes_eq (h : sk.publicKey.Sound) (hne : data ≠ [])
    (hlen : data.length ≤ sk.publicKey.ciphertextLength) (hc : c.Denotes (ofBigEndian data)) :
    sk.decryptBytes data = (sk.decrypt c).map fun m => canonicalBytes m.magnitude := by
  rw [decryptBytes, h.ciphertextOfBytes_eq, if_neg hne]
  by_cases hlt : ofBigEndian data < sk.publicKey.n * sk.publicKey.n
  · rw [if_pos ⟨hlen, hlt⟩, ok_bind, decrypt_congr h (Number.denotes_positive _) hc]
    simp only [paddedNumber_canonical]
    cases sk.decrypt c <;> rfl
  · -- the value is refused on both ways, before and after it has become a number
    have hnot : ¬ PublicKey.IsCiphertext sk.publicKey.n (ofBigEndian data) := by
      rintro ⟨⟨-, hbelow⟩, -⟩
      rw [Nat.pow_two] at hbelow
      omega
    rw [if_neg (fun hbelow => hlt hbelow.2), refuse_bind, decrypt_of_not_isCiphertext h hc hnot]
    rfl

theorem decryptBytes_nil (h : sk.publicKey.Sound) : sk.decryptBytes [] = refuse .invalidParameter := by
  rw [decryptBytes, h.ciphertextOfBytes_eq, if_pos rfl, refuse_bind]

theorem decryptBytes_of_length_lt (h : sk.publicKey.Sound) (hlen : sk.publicKey.ciphertextLength < data.length) :
    sk.decryptBytes data = refuse .invalidCiphertext := by
  have hne : data ≠ [] := List.ne_nil_of_length_pos (Nat.zero_lt_of_lt hlen)
  rw [decryptBytes, h.ciphertextOfBytes_eq, if_neg hne,
    if_neg (fun hbelow => Nat.not_le.mpr hlen hbelow.1), refuse_bind]

/-- **What comes out is the canonical form of a plaintext.** -/
theorem exists_canonicalBytes_of_decryptBytes (h : sk.publicKey.Sound) {plaintext : Bytes}
    (hdecrypt : sk.decryptBytes data = .ok plaintext) : ∃ m < sk.publicKey.n, plaintext = canonicalBytes m := by
  obtain ⟨c, -, hdecrypt⟩ := bind_eq_ok.mp hdecrypt
  obtain ⟨m, hm, hpad⟩ := bind_eq_ok.mp hdecrypt
  rw [paddedNumber_canonical] at hpad
  cases hpad
  have hanswered := decrypt_answered h c
  rw [hm] at hanswered
  cases hanswered with
  | value hbelow =>
    obtain ⟨k, hk, hdenotes⟩ := hbelow
    exact ⟨k, hk, by rw [hdenotes.magnitude_natCast]⟩

/-- With each nonce the bytes are encrypted to bytes that are decrypted to the result. -/
structure ReadsBack (sk : PrivateKey) (data result : Bytes) : Prop where
  outputs_eq : (sk.publicKey.encryptBytes data).outputs =
    (fun j => bigEndian (encryption sk.publicKey.n (ofBigEndian data) j)) '' sk.publicKey.nonces
  yields : (sk.publicKey.encryptBytes data).Yields sk.publicKey.plaintextLength fun c =>
    sk.decryptBytes c = .ok result

namespace Sound

/-- An encryption is read from its bytes, and its plaintext is found. -/
theorem decryptBytes_encryption (h : sk.Sound) {m j : Nat} (hm : m < sk.publicKey.n) (hj : j.Coprime sk.publicKey.n) :
    sk.decryptBytes (bigEndian (encryption sk.publicKey.n m j)) = .ok (canonicalBytes m) := by
  have hvalid := h.publicKey.validCiphertext_encryption (k := m) hj
  have hbytes := h.publicKey.hasBytes hvalid.denotes (h.publicKey.one_le_of_coprime hvalid.coprime) hvalid.lt
  have hread := hbytes.read 0 (by rw [Nat.zero_add]; exact hbytes.length_le)
  rw [List.replicate_zero, List.nil_append, Number.magnitude_ofNat] at hread
  rw [decryptBytes, hread, ok_bind, h.decrypt_of_holds hm (h.publicKey.holds_encryption hj), ok_bind,
    paddedNumber_canonical, Number.magnitude_ofNat]

/-- **Plaintexts that are read come back in canonical form.** -/
theorem readsBack (h : sk.Sound) (hne : data ≠ []) (hbelow : AreBelow data sk.publicKey.n) :
    sk.ReadsBack data (canonicalBytes (ofBigEndian data)) where
  outputs_eq := h.publicKey.outputs_encryptBytes hne hbelow
  yields := by
    refine (h.publicKey.yields_encryptBytes hne hbelow).mono ?_
    rintro _ ⟨j, hj, rfl⟩
    exact h.decryptBytes_encryption hbelow.2 hj

/-- The canonical form comes back as it is. -/
theorem readsBack_canonicalBytes (h : sk.Sound) {m : Nat} (hm : m < sk.publicKey.n) :
    sk.ReadsBack (canonicalBytes m) (canonicalBytes m) := by
  have hback := h.readsBack (canonicalBytes_ne_nil m)
    ⟨length_canonicalBytes_le hm, by rwa [ofBigEndian_canonicalBytes]⟩
  rwa [ofBigEndian_canonicalBytes] at hback

end Sound

end PrivateKey

/-! ## What the operations return -/

namespace PublicKey

/-- An operation of the key returns this ciphertext, for operands of any kind. -/
inductive Returns (pk : PublicKey) (c : Number) : Prop
  | encryptWithNonce {m r : Number} (h : pk.encryptWithNonce m r = .ok c)
  | encryptKeepingNonce {m r : Number} (h : (c, r) ∈ (pk.encryptKeepingNonce m).outputs)
  | encrypt {m : Number} (h : c ∈ (pk.encrypt m).outputs)
  | add {a b : Number} (h : pk.add a b = .ok c)
  | sub {a b : Number} (h : pk.sub a b = .ok c)
  | addScalar {a k : Number} (h : c ∈ (pk.addScalar a k).outputs)
  | subScalar {a k : Number} (h : c ∈ (pk.subScalar a k).outputs)
  | mulScalar {a k : Number} (h : pk.mulScalar a k = .ok c)

variable {pk : PublicKey} {a b c e m r : Number}

namespace Sound

/-- What has an inverse has a sign, so it is a ciphertext, and so is the inverse. -/
theorem checkCiphertext_of_invertCiphertext (h : pk.Sound) (hc : pk.checkCiphertext c = .ok ())
    (he : pk.invertCiphertext c = .ok e) : pk.checkCiphertext e = .ok () := by
  have hsign : c.sign ≠ .none := by
    intro hnone
    rw [invertCiphertext_eq_refuse hnone] at he
    cases he
  obtain ⟨k, hk⟩ := h.exists_validCiphertext (fun hnone => absurd hnone hsign) hc
  obtain ⟨i, hi, hvalid, -⟩ := h.invertCiphertext_eq hk
  rw [hi] at he
  cases he
  exact hvalid.check_eq_ok h

theorem exists_valid_of_mul (h : pk.Sound) (ha : pk.checkCiphertext a = .ok ()) (hb : pk.checkCiphertext b = .ok ())
    (he : Residue.mul a b pk.modulusSquared = .ok e) : ∃ k, pk.ValidCiphertext e k := by
  rw [Residue.mul_eq (sign_ne_minus_of_checkCiphertext ha) (sign_ne_minus_of_checkCiphertext hb)
    h.modulusSquared_odd] at he
  cases he
  exact ⟨_, h.validCiphertext_mod ((h.coprime_of_checkCiphertext ha).mul_left (h.coprime_of_checkCiphertext hb))⟩

theorem exists_valid_of_mulScalar (h : pk.Sound) (he : pk.mulScalar a m = .ok e) : ∃ k, pk.ValidCiphertext e k := by
  obtain ⟨_, ha, he⟩ := bind_eq_ok.mp he
  obtain ⟨_, hm, he⟩ := bind_eq_ok.mp he
  rw [Residue.pow_eq (sign_ne_minus_of_checkCiphertext ha) (sign_ne_minus_of_checkPlaintext hm)
    h.modulusSquared_odd] at he
  cases he
  exact ⟨_, h.validCiphertext_mod ((h.coprime_of_checkCiphertext ha).pow_left _)⟩

theorem exists_valid_of_encryptUnchecked (h : pk.Sound) (hm : pk.checkPlaintext m = .ok ()) {j : Nat}
    (hr : pk.ValidNonce r j) (hc : pk.encryptUnchecked m r = .ok c) : ∃ k, pk.ValidCiphertext c k := by
  rw [h.encryptUnchecked_eq (sign_ne_minus_of_checkPlaintext hm) hr.denotes.sign_ne_minus,
    hr.denotes.magnitude_natCast] at hc
  cases hc
  exact ⟨_, h.validCiphertext_encryption hr.coprime⟩

theorem exists_valid_of_encrypt (h : pk.Sound) (hc : c ∈ (pk.encrypt m).outputs) : ∃ k, pk.ValidCiphertext c k := by
  obtain ⟨source, rest, hrun⟩ := hc
  obtain ⟨hm, r, start, middle, hr, hc⟩ := runOn_encrypt_eq_ok hrun
  obtain ⟨j, hj⟩ := h.yields_randomNonce.of_runOn_eq_ok hr
  exact h.exists_valid_of_encryptUnchecked hm hj hc

/-- **Whatever an operation returns is a unit in `[1, N²)`.** -/
theorem exists_valid_of_returns (h : pk.Sound) (hc : pk.Returns c) : ∃ k, pk.ValidCiphertext c k := by
  cases hc with
  | encryptWithNonce hc =>
    obtain ⟨_, hm, hc⟩ := bind_eq_ok.mp hc
    obtain ⟨_, hr, hc⟩ := bind_eq_ok.mp hc
    obtain ⟨j, hj⟩ := h.exists_validNonce hr
    exact h.exists_valid_of_encryptUnchecked hm hj hc
  | @encryptKeepingNonce m r hc =>
    have hfirst : c ∈ (pk.encrypt m).outputs := by
      rw [encrypt, Sampler.outputs_bind_pure]
      exact ⟨(c, r), hc, rfl⟩
    exact h.exists_valid_of_encrypt hfirst
  | encrypt hc => exact h.exists_valid_of_encrypt hc
  | add hc =>
    obtain ⟨_, ha, hc⟩ := bind_eq_ok.mp hc
    obtain ⟨_, hb, hc⟩ := bind_eq_ok.mp hc
    exact h.exists_valid_of_mul ha hb hc
  | sub hc =>
    obtain ⟨_, ha, hc⟩ := bind_eq_ok.mp hc
    obtain ⟨_, hb, hc⟩ := bind_eq_ok.mp hc
    obtain ⟨i, hi, hc⟩ := bind_eq_ok.mp hc
    exact h.exists_valid_of_mul ha (h.checkCiphertext_of_invertCiphertext hb hi) hc
  | addScalar hc =>
    obtain ⟨_, ha, hc⟩ := Sampler.exists_of_mem_outputs_bind hc
    obtain ⟨_, -, hc⟩ := Sampler.exists_of_mem_outputs_bind hc
    obtain ⟨b, hb, hc⟩ := Sampler.exists_of_mem_outputs_bind hc
    obtain ⟨l, hl⟩ := h.exists_valid_of_encrypt hb
    exact h.exists_valid_of_mul (Sampler.mem_outputs_outcome.mp ha) (hl.check_eq_ok h)
      (Sampler.mem_outputs_outcome.mp hc)
  | subScalar hc =>
    obtain ⟨_, ha, hc⟩ := Sampler.exists_of_mem_outputs_bind hc
    obtain ⟨_, -, hc⟩ := Sampler.exists_of_mem_outputs_bind hc
    obtain ⟨b, hb, hc⟩ := Sampler.exists_of_mem_outputs_bind hc
    obtain ⟨i, hi, hc⟩ := Sampler.exists_of_mem_outputs_bind hc
    obtain ⟨l, hl⟩ := h.exists_valid_of_encrypt hb
    have hinverse := h.checkCiphertext_of_invertCiphertext (hl.check_eq_ok h) (Sampler.mem_outputs_outcome.mp hi)
    exact h.exists_valid_of_mul (Sampler.mem_outputs_outcome.mp ha) hinverse (Sampler.mem_outputs_outcome.mp hc)
  | mulScalar hc => exact h.exists_valid_of_mulScalar hc

end Sound

end PublicKey

/-! ## Accepted keys -/

/--
**Plaintexts come back from bytes in canonical form**, whatever nonce is drawn.

No bytes, too many bytes and bytes that are not below the modulus are refused, which costs no entropy. What was
decrypted is in canonical form, so it may be encrypted as it stands and comes back as it is.
-/
theorem plaintextBytes_roundTrip {p q : Nat} {sk : PrivateKey} (accepted : PrivateKey.ofPrimes p q = .ok sk)
    (hp : ExactAt p) (hq : ExactAt q) :
    (∀ source, (sk.publicKey.encryptBytes []).runOn source = (refuse .invalidParameter, source)) ∧
    (∀ data : Bytes, data ≠ [] → byteLength (p * q) < data.length ∨ p * q ≤ ofBigEndian data →
      ∀ source, (sk.publicKey.encryptBytes data).runOn source = (refuse .invalidPlaintext, source)) ∧
    (∀ data : Bytes, data ≠ [] → data.length ≤ byteLength (p * q) → ofBigEndian data < p * q →
      sk.ReadsBack data (canonicalBytes (ofBigEndian data))) ∧
    ∀ ciphertext plaintext : Bytes, sk.decryptBytes ciphertext = .ok plaintext →
      plaintext ≠ [] ∧ sk.ReadsBack plaintext plaintext := by
  obtain ⟨hsound, hn⟩ := PrivateKey.sound_of_ofPrimes accepted hp hq
  have hread := hsound.publicKey.plaintextOfBytes_eq
  rw [← hn]
  refine ⟨PublicKey.runOn_encryptBytes_of_refuse ?_, fun data hne hout => PublicKey.runOn_encryptBytes_of_refuse ?_,
    fun data hne hlen hlt => hsound.readsBack hne ⟨hlen, hlt⟩, fun ciphertext plaintext hplaintext => ?_⟩
  · rw [hread, if_pos rfl]
  · have hnot : ¬ AreBelow data sk.publicKey.n := by
      rintro ⟨hlen, hlt⟩
      omega
    rw [hread, if_neg hne, if_neg hnot]
  · obtain ⟨m, hm, rfl⟩ := PrivateKey.exists_canonicalBytes_of_decryptBytes hsound.publicKey hplaintext
    exact ⟨canonicalBytes_ne_nil m, hsound.readsBack_canonicalBytes hm⟩

/--
Under the key of the example, two zeros for the plaintext zero, which comes back as one, as often as it is sent; and the
modulus, which has the length of a plaintext but is too large by one.
-/
theorem plaintextBytes_roundTrip_example :
    ExactAt exampleP ∧ ExactAt exampleQ ∧
    ∃ sk, PrivateKey.ofPrimes exampleP exampleQ = .ok sk ∧
      (∀ source, (sk.publicKey.encryptBytes []).runOn source = (refuse .invalidParameter, source)) ∧
      (∀ source, (sk.publicKey.encryptBytes (bigEndian (exampleP * exampleQ))).runOn source =
        (refuse .invalidPlaintext, source)) ∧
      sk.ReadsBack [0, 0] [0] ∧ ∃ ciphertext, sk.decryptBytes ciphertext = .ok [0] ∧ sk.ReadsBack [0] [0] := by
  obtain ⟨sk, hsk⟩ := PrivateKey.exists_ofPrimes_example
  obtain ⟨hsound, -⟩ := PrivateKey.sound_of_ofPrimes hsk exactAt_exampleP exactAt_exampleQ
  obtain ⟨hempty, hlarge, hback, hagain⟩ := plaintextBytes_roundTrip hsk exactAt_exampleP exactAt_exampleQ
  have hzero : sk.decryptBytes (bigEndian (encryption sk.publicKey.n 0 1)) = .ok [0] :=
    hsound.decryptBytes_encryption hsound.publicKey.pos (Nat.coprime_one_left _)
  have hvalue := ofBigEndian_bigEndian (exampleP * exampleQ)
  exact ⟨exactAt_exampleP, exactAt_exampleQ, sk, hsk, hempty,
    hlarge _ (by decide +kernel) (Or.inr (Nat.le_of_eq hvalue.symm)),
    hback [0, 0] (by decide) (by decide +kernel) (by decide +kernel), _, hzero, (hagain _ _ hzero).2⟩

/--
**The bytes of a ciphertext stand for it.**

Under every accepted modulus each number in `[1, N²)`, so whatever an operation returns, has bytes and is read back
from them. Under every accepted pair of primes decryption of bytes is decryption of their value; it gives the same
plaintext or is refused for the same cause.
-/
theorem ciphertextBytes_agree :
    (∀ (n : Nat) (pk : PublicKey), PublicKey.ofModulus n = .ok pk →
      (∀ c, pk.Returns c → ∃ k : Nat, c.Denotes k ∧ 1 ≤ k ∧ k < n ^ 2) ∧
      ∀ (c : Number) (k : Nat), c.Denotes k → 1 ≤ k → k < n ^ 2 → pk.HasBytes c) ∧
    ∀ (p q : Nat) (sk : PrivateKey), PrivateKey.ofPrimes p q = .ok sk →
      sk.decryptBytes [] = refuse .invalidParameter ∧
      (∀ data : Bytes, sk.publicKey.ciphertextLength < data.length →
        sk.decryptBytes data = refuse .invalidCiphertext) ∧
      ∀ data : Bytes, data ≠ [] → data.length ≤ sk.publicKey.ciphertextLength →
        ∀ c : Number, c.Denotes (ofBigEndian data) →
          sk.decryptBytes data = (sk.decrypt c).map fun m => canonicalBytes m.magnitude := by
  refine ⟨fun n pk hpk => ?_, fun p q sk hsk => ?_⟩
  · obtain ⟨hsound, rfl⟩ := PublicKey.sound_of_ofModulus hpk
    simp only [Nat.pow_two]
    refine ⟨fun c hc => ?_, fun c k hc hone hlt => hsound.hasBytes hc hone hlt⟩
    obtain ⟨k, hk⟩ := hsound.exists_valid_of_returns hc
    exact ⟨k, hk.denotes, hsound.one_le_of_coprime hk.coprime, hk.lt⟩
  · have hsound := PrivateKey.sound_publicKey_of_ofPrimes hsk
    exact ⟨PrivateKey.decryptBytes_nil hsound, fun data => PrivateKey.decryptBytes_of_length_lt hsound,
      fun data hne hlen c hc => PrivateKey.decryptBytes_eq hsound hne hlen hc⟩

/--
Modulo a power of three, two is the sum of one and itself, and is read from two bytes. Under the key of the example
three bytes for two are decrypted like the number, and so is a zero, which is refused; one byte more than the square has
is too many.
-/
theorem ciphertextBytes_agree_example :
    (∃ pk, PublicKey.ofModulus (3 ^ 161 : Nat) = .ok pk ∧ pk.Returns 2 ∧ (2 : Number).Denotes (2 : Nat) ∧
      pk.HasBytes 2 ∧ pk.ciphertextOfBytes [0, 2] = .ok 2) ∧
    ∃ sk, PrivateKey.ofPrimes exampleP exampleQ = .ok sk ∧ sk.publicKey.ciphertextLength = 64 ∧
      sk.decryptBytes (List.replicate 65 1) = refuse .invalidCiphertext ∧
      sk.decryptBytes [0, 0, 2] = (sk.decrypt 2).map (fun m => canonicalBytes m.magnitude) ∧
      sk.decryptBytes [0] = (sk.decrypt 0).map (fun m => canonicalBytes m.magnitude) := by
  have htwo : (2 : Number).Denotes (2 : Nat) := Number.denotes_ofNat 2
  have hkey : PublicKey.ofModulus (3 ^ 161 : Nat) = .ok ⟨(3 ^ 161 : Nat)⟩ := PublicKey.ofModulus_powerOfThree
  have hreturns : PublicKey.Returns ⟨(3 ^ 161 : Nat)⟩ 2 := .add (a := 1) (b := 2) (by decide +kernel)
  have hdigits : bigEndian (2 : Number).magnitude = [2] := by decide +kernel
  obtain ⟨sk, hsk⟩ := PrivateKey.exists_ofPrimes_example
  obtain ⟨-, hn⟩ := PrivateKey.sound_of_ofPrimes hsk exactAt_exampleP exactAt_exampleQ
  have hlen : sk.publicKey.ciphertextLength = 64 := by
    show byteLength (sk.publicKey.n * sk.publicKey.n) = 64
    rw [hn]
    decide +kernel
  obtain ⟨hpublic, hprivate⟩ := ciphertextBytes_agree
  obtain ⟨-, hnumbers⟩ := hpublic _ _ hkey
  obtain ⟨-, hlong, hvalue⟩ := hprivate _ _ _ hsk
  have hbytes := hnumbers 2 2 htwo (by decide) (by decide +kernel)
  have hread := hbytes.read 1 (by rw [hdigits]; decide +kernel)
  rw [hdigits] at hread
  refine ⟨⟨_, hkey, hreturns, htwo, hbytes, hread⟩, sk, hsk, hlen, hlong _ ?_, hvalue _ ?_ ?_ _ htwo,
    hvalue _ ?_ ?_ _ (Number.denotes_ofNat 0)⟩
  · rw [hlen]
    decide
  · decide
  · rw [hlen]
    decide
  · decide
  · rw [hlen]
    decide

end Paillier
