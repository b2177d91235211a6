import Paillier.Proofs.Format.Frame
import Paillier.Proofs.Key.Acceptance

/-!
# Writing and reading keys as bytes

A key is written in its shortest form and read in any form: zeros in front of a number do no harm as long as the
length in front counts them. Reading makes the key anew from its numbers, so it accepts what the constructors accept
and nothing else.

## Main statements

* `PublicKey.ofBytes_eq`, `PrivateKey.ofBytes_eq` — the outcome of reading, for every byte string.
* `PublicKey.exists_toBytes`, `PrivateKey.exists_toBytes` — what is written.
* `PublicKey.publicBytes_roundTrip`, `PrivateKey.privateBytes_roundTrip` — both directions for keys that are accepted.
-/

namespace Paillier

open Number (positive)

/-! ## Numbers as bytes -/

/-- A magnitude that can be a modulus, and so each of its factors, takes at most 256 bytes. -/
theorem byteLength_le_of_lt {n : Nat} (h : n < 2 ^ 2048) : byteLength n ≤ 256 := by
  rw [byteLength_le_iff]
  exact Nat.lt_of_lt_of_le h (by decide +kernel)

theorem byteLength_lt_two_pow {n : Nat} (h : n < 2 ^ 2048) : byteLength n < 2 ^ 32 :=
  Nat.lt_of_le_of_lt (byteLength_le_of_lt h) (by decide)

/-- What can be read as a number is not too long, and nothing is read but its value. -/
theorem numberOfBytes_eq_ok_iff {data : Bytes} {a : Number} :
    numberOfBytes data = .ok a ↔ data.length ≤ 512 ∧ a = positive (ofBigEndian data) := by
  by_cases hlong : capacityBytes < data.length
  · rw [numberOfBytes, if_pos hlong]
    refine iff_of_false (fun h => nomatch h) fun h => Nat.not_lt.mpr h.1 hlong
  · rw [numberOfBytes_eq_ok (Nat.not_lt.mp hlong), Except.ok.injEq]
    exact ⟨fun h => ⟨Nat.not_lt.mp hlong, h.symm⟩, fun h => h.2.symm⟩

/-! ## Public keys -/

namespace PublicKey

variable {data : Bytes} {n : Nat} {pk : PublicKey}

/-- The outcome of reading a public key is that of its last step, once the length has been found to fit. -/
theorem ofBytes_eq_bind (data : Bytes) :
    ofBytes data =
      if data.length < 36 then refuse .keyTooShort
      else if announced data ≠ (payload data).length then refuse .invalidKey
      else numberOfBytes (payload data) >>= ofModulus := by
  rw [ofBytes, parse, mapError_splitLength_bind]
  refine if_congr Iff.rfl rfl ?_
  dsimp only
  by_cases hlength : announced data ≠ (payload data).length
  · rw [if_pos hlength, if_pos hlength]
    rfl
  · rw [if_neg hlength, if_neg hlength, mapError_bind, mapError_unreadable_failure]
    exact bind_congr fun n => mapError_unsound_failure _

/-- **The outcome of reading a public key.** -/
theorem ofBytes_eq (hpayload : (payload data).length ≤ 512) :
    ofBytes data =
      if data.length < 36 then refuse .keyTooShort
      else if announced data ≠ (payload data).length then refuse .invalidKey
      else ofModulus (ofBigEndian (payload data)) := by
  rw [ofBytes_eq_bind, numberOfBytes_eq_ok hpayload, ok_bind, ofModulus_positive]

/-- What is recorded on the way has no part in the outcome. -/
theorem runOn_load (data : Bytes) (source : Source) :
    ∃ events, (load data).runOn source = (ofBytes data, { source with events }) :=
  runOn_recordingRejection .publicKey (parse data) source

/-- The bytes are a form of the modulus `n`: the length fits and the payload has the value `n`. -/
structure IsForm (data : Bytes) (n : Nat) : Prop where
  isFrame : IsFrame data (payload data).length (payload data)
  value_eq : ofBigEndian (payload data) = n

/-- What is read as a key is a form of its modulus. -/
theorem ofBytes_eq_ok (h : ofBytes data = .ok pk) :
    IsForm data (ofBigEndian (payload data)) ∧ ofModulus (ofBigEndian (payload data)) = .ok pk := by
  rw [ofBytes_eq_bind] at h
  obtain ⟨hlong, h⟩ := ite_refuse_eq_ok.mp h
  obtain ⟨hlength, h⟩ := ite_refuse_eq_ok.mp h
  obtain ⟨a, ha, hpk⟩ := bind_eq_ok.mp h
  obtain ⟨-, rfl⟩ := numberOfBytes_eq_ok_iff.mp ha
  rw [ofModulus_positive] at hpk
  exact ⟨⟨⟨Nat.le_trans (by decide) (Nat.not_lt.mp hlong), Classical.not_not.mp hlength, rfl⟩, rfl⟩, hpk⟩

/-- A form of an accepted modulus is read as its key, unless it has too many zeros. -/
theorem IsForm.ofBytes_eq (h : IsForm data n) (hpayload : (payload data).length ≤ 512) (hlong : 2 ^ 255 ≤ n) :
    ofBytes data = ofModulus n := by
  have hbytes : 31 < byteLength n := lt_byteLength_iff.mpr (Nat.le_trans (by decide +kernel) hlong)
  have hdata := h.isFrame.length_eq
  have hvalue := byteLength_ofBigEndian_le (payload data)
  rw [h.value_eq] at hvalue
  have hlarge : ¬ data.length < 36 := by
    rw [hdata, lengthBytes]
    omega
  rw [PublicKey.ofBytes_eq hpayload, if_neg hlarge, if_neg (Classical.not_not.mpr h.isFrame.announced_eq), h.value_eq]

/-- The shortest form of a modulus. -/
def IsShortestForm (data : Bytes) (n : Nat) : Prop := IsFrame data (byteLength n) (bigEndian n)

theorem IsShortestForm.isForm (h : IsShortestForm data n) : IsForm data n := by
  refine ⟨⟨h.length_le, ?_, rfl⟩, ?_⟩
  · rw [h.announced_eq, h.payload_eq, length_bigEndian]
  · rw [h.payload_eq, ofBigEndian_bigEndian]

/-- A form is the shortest one iff there is no zero in front of the payload. -/
theorem IsForm.isShortestForm_iff (h : IsForm data n) : IsShortestForm data n ↔ (payload data).head? ≠ some 0 := by
  have hlength := leadingZeros_add_byteLength (payload data)
  rw [h.value_eq] at hlength
  rw [← leadingZeros_eq_zero_iff]
  constructor
  · intro hshortest
    rw [hshortest.payload_eq, length_bigEndian] at hlength
    rw [hshortest.payload_eq]
    omega
  · intro hzeros
    have hbody : payload data = bigEndian n := by
      rw [← h.value_eq, ← stripLeadingZeros_eq, ← drop_leadingZeros, hzeros, List.drop_zero]
    refine ⟨h.isFrame.length_le, ?_, hbody⟩
    rw [h.isFrame.announced_eq, hbody, length_bigEndian]

/-- No form is shorter than the shortest. -/
theorem IsShortestForm.length_le_of_isForm {other : Bytes} (h : IsShortestForm data n) (hother : IsForm other n) :
    data.length ≤ other.length := by
  have hvalue := byteLength_ofBigEndian_le (payload other)
  rw [hother.value_eq] at hvalue
  rw [IsFrame.length_eq h, hother.isFrame.length_eq, length_bigEndian]
  exact Nat.add_le_add_left hvalue _

/-- **A key is written as the shortest form of its modulus.** -/
theorem exists_toBytes (h : n < 2 ^ 2048) :
    ∃ data, toBytes ⟨positive n⟩ = .ok data ∧ IsShortestForm data n := by
  obtain ⟨front, hfront, hframe⟩ := exists_isFrame (byteLength_lt_two_pow h) (bigEndian n)
  refine ⟨front ++ bigEndian n, ?_, hframe⟩
  rw [toBytes, paddedNumber_byteLength, Number.magnitude_positive, ok_bind, length_bigEndian, hfront]
  rfl

/-- An accepted key is written in the shortest form of its modulus, and is read from it. -/
theorem exists_toBytes_of_ofModulus (h : ofModulus n = .ok pk) :
    ∃ data, pk.toBytes = .ok data ∧ IsShortestForm data n ∧ ofBytes data = .ok pk := by
  obtain ⟨rfl, hlong, hsize⟩ := modulus_of_ofModulus h
  obtain ⟨data, hdata, hshortest⟩ := exists_toBytes hsize
  have hpayload : (payload data).length ≤ 512 := by
    rw [hshortest.payload_eq, length_bigEndian]
    exact Nat.le_trans (byteLength_le_of_lt hsize) (by decide)
  exact ⟨data, hdata, hshortest, (hshortest.isForm.ofBytes_eq hpayload hlong).trans h⟩

/-- Two forms of one key have the same value. -/
theorem value_eq_of_ofBytes {other : Bytes} (h : ofBytes data = .ok pk) (hother : ofBytes other = .ok pk) :
    ofBigEndian (payload data) = ofBigEndian (payload other) := by
  have hn := (sound_of_ofModulus (ofBytes_eq_ok h).2).2
  exact hn.symm.trans (sound_of_ofModulus (ofBytes_eq_ok hother).2).2

/--
**Public keys as bytes, in both directions.**

An accepted key is read back from what is written. The other parts are about any bytes: the outcome of reading them,
when it is a key, and that the key is written in the shortest form, which is the only one without a zero in front of
the modulus.
-/
theorem publicBytes_roundTrip :
    (∀ (n : Nat) (pk : PublicKey), ofModulus n = .ok pk →
      ∃ data, pk.toBytes = .ok data ∧ ofBytes data = .ok pk) ∧
    ∀ data : Bytes, (payload data).length ≤ 512 → ofBigEndian (payload data) < 2 ^ 2048 →
      (ofBytes data =
        if data.length < 36 then refuse .keyTooShort
        else if announced data ≠ (payload data).length then refuse .invalidKey
        else ofModulus (ofBigEndian (payload data))) ∧
      (ExactAt (ofBigEndian (payload data)) →
        ((∃ pk, ofBytes data = .ok pk) ↔
          IsForm data (ofBigEndian (payload data)) ∧ ofBigEndian (payload data) % 2 = 1 ∧
            ¬ (ofBigEndian (payload data)).Prime ∧ 2 ^ 255 ≤ ofBigEndian (payload data))) ∧
      ∀ pk, ofBytes data = .ok pk →
        ∃ written, pk.toBytes = .ok written ∧ IsShortestForm written (ofBigEndian (payload data)) ∧
          (∀ other, IsForm other (ofBigEndian (payload data)) → written.length ≤ other.length) ∧
          (written = data ↔ (payload data).head? ≠ some 0) ∧
          ofBytes written = .ok pk ∧
          ∀ other, (payload other).head? ≠ some 0 → ofBytes other = .ok pk → other = written := by
  refine ⟨fun n pk hpk => ?_, fun data hpayload hsize => ⟨ofBytes_eq hpayload, fun hexact => ?_, fun pk hpk => ?_⟩⟩
  · obtain ⟨data, hdata, -, hread⟩ := exists_toBytes_of_ofModulus hpk
    exact ⟨data, hdata, hread⟩
  · rw [← exists_ofModulus_iff hsize hexact]
    constructor
    · rintro ⟨pk, hpk⟩
      obtain ⟨hform, hmodulus⟩ := ofBytes_eq_ok hpk
      exact ⟨hform, pk, hmodulus⟩
    · rintro ⟨hform, pk, hmodulus⟩
      obtain ⟨-, hlong, -⟩ := modulus_of_ofModulus hmodulus
      exact ⟨pk, (hform.ofBytes_eq hpayload hlong).trans hmodulus⟩
  · obtain ⟨hform, hmodulus⟩ := ofBytes_eq_ok hpk
    obtain ⟨written, hwritten, hshortest, hread⟩ := exists_toBytes_of_ofModulus hmodulus
    refine ⟨written, hwritten, hshortest, fun other hother => hshortest.length_le_of_isForm hother, ?_, hread, ?_⟩
    · rw [← hform.isShortestForm_iff]
      exact ⟨fun h => h ▸ hshortest, fun h => hshortest.unique h⟩
    · intro other hhead hother
      have hotherForm := (ofBytes_eq_ok hother).1
      rw [← value_eq_of_ofBytes hpk hother] at hotherForm
      exact (hotherForm.isShortestForm_iff.mpr hhead).unique hshortest

/-- The modulus of the example. -/
def sampleModulus : Bytes :=
  [188, 140, 182, 222, 37, 174, 198, 64, 131, 73, 108, 172, 104, 28, 67, 245, 149, 166, 226, 40, 129, 30, 171, 86, 145,
    155, 199, 9, 81, 120, 50, 229]

/-- The key of the sample is read with a zero in front, and written without. -/
theorem publicBytes_roundTrip_sampleModulus :
    ∃ pk, ofModulus (exampleP * exampleQ : Nat) = .ok pk ∧
      ofBytes ([33, 0, 0, 0] ++ 0 :: sampleModulus) = .ok pk ∧
      pk.toBytes = .ok ([32, 0, 0, 0] ++ sampleModulus) ∧
      ofBytes ([32, 0, 0, 0] ++ sampleModulus) = .ok pk := by
  have hvalue : ofBigEndian (payload ([33, 0, 0, 0] ++ 0 :: sampleModulus)) = exampleP * exampleQ := by
    decide +kernel
  have hcomposite : ¬ (exampleP * exampleQ).Prime := Nat.not_prime_mul prime_exampleP.ne_one prime_exampleQ.ne_one
  obtain ⟨hnew, hany⟩ := publicBytes_roundTrip
  obtain ⟨-, hiff, hwrite⟩ := hany ([33, 0, 0, 0] ++ 0 :: sampleModulus) (by decide) (by decide +kernel)
  rw [hvalue] at hiff hwrite
  obtain ⟨pk, hpk⟩ := (hiff exactAt_example).mpr
    ⟨⟨⟨by decide, by decide, rfl⟩, hvalue⟩, by decide +kernel, hcomposite, by decide +kernel⟩
  have hmodulus : ofModulus (exampleP * exampleQ : Nat) = .ok pk := hvalue ▸ (ofBytes_eq_ok hpk).2
  obtain ⟨written, hwritten, hshortest, -⟩ := hwrite pk hpk
  obtain ⟨data, hdata, hread⟩ := hnew _ pk hmodulus
  have hform : IsForm ([32, 0, 0, 0] ++ sampleModulus) (exampleP * exampleQ) :=
    ⟨⟨by decide, by decide, rfl⟩, by decide +kernel⟩
  obtain rfl := (hform.isShortestForm_iff.mpr (by decide)).unique hshortest
  rw [hwritten] at hdata
  cases hdata
  exact ⟨pk, hmodulus, hpk, hwritten, hread⟩

end PublicKey

/-! ## Private keys -/

/-- The first half of the bytes after the length. -/
def firstHalf (data : Bytes) : Bytes := (payload data).take ((payload data).length / 2)

/-- The second half of the bytes after the length. -/
def secondHalf (data : Bytes) : Bytes := (payload data).drop ((payload data).length / 2)

namespace PrivateKey

variable {data first second : Bytes} {p q : Nat} {sk : PrivateKey}

/-- The bytes are two parts of the same length behind that length. -/
structure IsForm (data first second : Bytes) : Prop where
  isFrame : IsFrame data first.length (first ++ second)
  length_eq : first.length = second.length

namespace IsForm

theorem length_payload_half (h : IsForm data first second) : (payload data).length / 2 = first.length := by
  rw [h.isFrame.payload_eq, List.length_append, ← h.length_eq]
  omega

theorem firstHalf_eq (h : IsForm data first second) : firstHalf data = first := by
  rw [firstHalf, h.length_payload_half, h.isFrame.payload_eq, List.take_left]

theorem secondHalf_eq (h : IsForm data first second) : secondHalf data = second := by
  rw [secondHalf, h.length_payload_half, h.isFrame.payload_eq, List.drop_left]

end IsForm

/-- If the length fits, the parts are the halves. -/
theorem isForm_halves (hdata : lengthBytes ≤ data.length) (hlength : 2 * announced data = (payload data).length) :
    IsForm data (firstHalf data) (secondHalf data) := by
  have hhalf : (firstHalf data).length = announced data := by
    rw [firstHalf, List.length_take]
    omega
  refine ⟨⟨hdata, hhalf.symm, (List.take_append_drop _ _).symm⟩, ?_⟩
  rw [hhalf, secondHalf, List.length_drop]
  omega

/-- The outcome of reading a private key is that of its last step, once the length has been found to fit. -/
theorem ofBytes_eq_bind (data : Bytes) :
    ofBytes data =
      if data.length < 36 then refuse .keyTooShort
      else if 2 * announced data ≠ (payload data).length then refuse .invalidKey
      else numberOfBytes (firstHalf data) >>= fun p => numberOfBytes (secondHalf data) >>= fun q => ofPrimes p q := by
  rw [ofBytes, parse, mapError_splitLength_bind]
  refine if_congr Iff.rfl rfl ?_
  dsimp only
  by_cases hlength : 2 * announced data ≠ (payload data).length
  · rw [if_pos hlength, if_pos hlength]
    rfl
  · have hhalf : announced data = (payload data).length / 2 := by omega
    rw [if_neg hlength, if_neg hlength, hhalf, mapError_bind, mapError_unreadable_failure]
    refine bind_congr fun p => ?_
    rw [mapError_bind, mapError_unreadable_failure]
    exact bind_congr fun q => mapError_unsound_failure _

/-- **The outcome of reading a private key.** -/
theorem ofBytes_eq (hdata : data.length ≤ 1028) :
    ofBytes data =
      if data.length < 36 then refuse .keyTooShort
      else if 2 * announced data ≠ (payload data).length then refuse .invalidKey
      else ofPrimes (ofBigEndian (firstHalf data)) (ofBigEndian (secondHalf data)) := by
  have hpayload : (payload data).length ≤ 1024 := by
    rw [length_payload, lengthBytes]
    omega
  rw [ofBytes_eq_bind]
  refine if_congr Iff.rfl rfl ?_
  by_cases hlength : 2 * announced data ≠ (payload data).length
  · rw [if_pos hlength, if_pos hlength]
  · have hfirst : (firstHalf data).length ≤ capacityBytes := by
      rw [firstHalf, List.length_take, capacityBytes, capacityBits]
      omega
    have hsecond : (secondHalf data).length ≤ capacityBytes := by
      rw [secondHalf, List.length_drop, capacityBytes, capacityBits]
      omega
    rw [if_neg hlength, if_neg hlength, numberOfBytes_eq_ok hfirst, ok_bind, numberOfBytes_eq_ok hsecond, ok_bind,
      ofPrimes_positive]

/-- What is recorded on the way has no part in the outcome. -/
theorem runOn_load (data : Bytes) (source : Source) :
    ∃ events, (load data).runOn source = (ofBytes data, { source with events }) :=
  runOn_recordingRejection .privateKey (parse data) source

/-- What is read as a key has its primes in two halves of the announced length. -/
theorem ofBytes_eq_ok (h : ofBytes data = .ok sk) :
    IsForm data (firstHalf data) (secondHalf data) ∧
      ofPrimes (ofBigEndian (firstHalf data)) (ofBigEndian (secondHalf data)) = .ok sk := by
  rw [ofBytes_eq_bind] at h
  obtain ⟨hlong, h⟩ := ite_refuse_eq_ok.mp h
  obtain ⟨hlength, h⟩ := ite_refuse_eq_ok.mp h
  obtain ⟨a, ha, h⟩ := bind_eq_ok.mp h
  obtain ⟨b, hb, hsk⟩ := bind_eq_ok.mp h
  obtain ⟨-, rfl⟩ := numberOfBytes_eq_ok_iff.mp ha
  obtain ⟨-, rfl⟩ := numberOfBytes_eq_ok_iff.mp hb
  rw [ofPrimes_positive] at hsk
  have hdata : lengthBytes ≤ data.length := Nat.le_trans (by decide) (Nat.not_lt.mp hlong)
  exact ⟨isForm_halves hdata (Classical.not_not.mp hlength), hsk⟩

/-- Two primes of a length that is allowed are read from their form. -/
theorem IsForm.ofBytes_eq (h : IsForm data first second) (hshort : 16 ≤ first.length) (hlong : first.length ≤ 512) :
    ofBytes data = ofPrimes (ofBigEndian first) (ofBigEndian second) := by
  have hdata := h.isFrame.length_eq
  have hlength := congrArg List.length h.isFrame.payload_eq
  rw [List.length_append, ← h.length_eq] at hlength hdata
  rw [lengthBytes] at hdata
  rw [PrivateKey.ofBytes_eq (by omega), if_neg (by omega), if_neg, h.firstHalf_eq, h.secondHalf_eq]
  rw [h.isFrame.announced_eq, hlength]
  omega

/-- The primes of an accepted key have the same length, which the forms of keys allow. -/
theorem lengths_of_ofPrimes (h : ofPrimes p q = .ok sk) :
    sk.p = positive p ∧ sk.q = positive q ∧ byteLength p = byteLength q ∧ 16 ≤ byteLength p ∧ p < 2 ^ 2048 := by
  obtain ⟨hlen, hresp, hresq, -, -, hunchecked, hsum⟩ := ofPrimes_eq_ok h
  have hfits := fits_of_ofPrimesUnchecked hunchecked
  obtain ⟨hp, hq⟩ := primes_of_ofPrimesUnchecked hunchecked
  simp only [Number.magnitude_ofNat] at hlen hresp hresq hsum hfits
  rw [minKeyBits] at hsum
  refine ⟨?_, ?_, ?_, ?_, ?_⟩
  · rw [hp, Number.ofNat_of_pos (by omega)]
  · rw [hq, Number.ofNat_of_pos (by omega)]
  · rw [byteLength, hlen, byteLength]
  · rw [byteLength, bytesForBits]
    omega
  · rw [mul_self_lt_capacity_iff] at hfits
    exact Nat.lt_of_le_of_lt (Nat.le_mul_of_pos_right p (by omega)) hfits

/-- **A key is written as its two primes in their own length.** -/
theorem exists_toBytes (hp : sk.p = positive p) (hq : sk.q = positive q) (hlen : byteLength p = byteLength q)
    (hsize : p < 2 ^ 2048) : ∃ data, sk.toBytes = .ok data ∧ IsForm data (bigEndian p) (bigEndian q) := by
  obtain ⟨front, hfront, hframe⟩ := exists_isFrame (byteLength_lt_two_pow hsize) (bigEndian p ++ bigEndian q)
  refine ⟨front ++ (bigEndian p ++ bigEndian q), ?_, ?_, ?_⟩
  · have hpadp : paddedNumber (positive p) (byteLength p) = .ok (bigEndian p) := paddedNumber_byteLength (positive p)
    have hpadq : paddedNumber (positive q) (byteLength p) = .ok (bigEndian q) := by
      rw [hlen]
      exact paddedNumber_byteLength (positive q)
    rw [toBytes, hp, hq, Number.magnitude_positive, Number.magnitude_positive, ← hlen, Nat.max_self]
    rw [hpadp, ok_bind, hpadq, ok_bind, hfront, ok_bind, List.append_assoc]
    rfl
  · rw [length_bigEndian]
    exact hframe
  · rw [length_bigEndian, length_bigEndian, hlen]

/-- An accepted key is written as its two primes, and is read from them. -/
theorem exists_toBytes_of_ofPrimes (h : ofPrimes p q = .ok sk) :
    ∃ data, sk.toBytes = .ok data ∧ IsForm data (bigEndian p) (bigEndian q) ∧ ofBytes data = .ok sk := by
  obtain ⟨hp, hq, hlen, hshort, hsize⟩ := lengths_of_ofPrimes h
  obtain ⟨data, hdata, hform⟩ := exists_toBytes hp hq hlen hsize
  refine ⟨data, hdata, hform, ?_⟩
  have hlong := Nat.le_trans (byteLength_le_of_lt hsize) (by decide : 256 ≤ 512)
  rw [← length_bigEndian] at hshort hlong
  rw [hform.ofBytes_eq hshort hlong, ofBigEndian_bigEndian, ofBigEndian_bigEndian, h]

/-- In both halves of an accepted form there are the same number of zeros in front, and the rest is written. -/
theorem exists_toBytes_of_isForm (h : IsForm data first second)
    (hsk : ofPrimes (ofBigEndian first) (ofBigEndian second) = .ok sk) :
    ∃ z written, leadingZeros first = z ∧ leadingZeros second = z ∧ z ≤ first.length ∧ sk.toBytes = .ok written ∧
      IsForm written (first.drop z) (second.drop z) := by
  obtain ⟨-, -, hlen, -, -⟩ := lengths_of_ofPrimes hsk
  obtain ⟨written, hwritten, hform, -⟩ := exists_toBytes_of_ofPrimes hsk
  have hfirst := leadingZeros_add_byteLength first
  have hsecond := leadingZeros_add_byteLength second
  have hzeros : leadingZeros second = leadingZeros first := by
    have := h.length_eq
    omega
  refine ⟨leadingZeros first, written, rfl, hzeros, by omega, hwritten, ?_⟩
  rw [← stripLeadingZeros_eq, ← stripLeadingZeros_eq, ← drop_leadingZeros, ← drop_leadingZeros, hzeros] at hform
  exact hform

/--
**Private keys as bytes, in both directions.**

An accepted key is read back from what is written, with everything that is derived from the primes. The other parts
are about any bytes: the outcome of reading them, and that a key is written again without the zeros in front of its
two primes, of which there are equally many.
-/
theorem privateBytes_roundTrip :
    (∀ (p q : Nat) (sk : PrivateKey), ofPrimes p q = .ok sk →
      ∃ data, sk.toBytes = .ok data ∧ ofBytes data = .ok sk) ∧
    ∀ data : Bytes, data.length ≤ 1028 →
      (ofBytes data =
        if data.length < 36 then refuse .keyTooShort
        else if 2 * announced data ≠ (payload data).length then refuse .invalidKey
        else ofPrimes (ofBigEndian (firstHalf data)) (ofBigEndian (secondHalf data))) ∧
      ∀ sk, ofBytes data = .ok sk →
        ∃ z written, leadingZeros (firstHalf data) = z ∧ leadingZeros (secondHalf data) = z ∧
          z ≤ announced data ∧ sk.toBytes = .ok written ∧
          IsFrame written (announced data - z) ((firstHalf data).drop z ++ (secondHalf data).drop z) ∧
          (written = data ↔ z = 0) := by
  refine ⟨fun p q sk hsk => ?_, fun data hdata => ⟨ofBytes_eq hdata, fun sk hsk => ?_⟩⟩
  · obtain ⟨data, hdata, -, hread⟩ := exists_toBytes_of_ofPrimes hsk
    exact ⟨data, hdata, hread⟩
  · obtain ⟨hform, hprimes⟩ := ofBytes_eq_ok hsk
    obtain ⟨z, written, hfirst, hsecond, hz, hwritten, hwrittenForm⟩ := exists_toBytes_of_isForm hform hprimes
    have hannounced := hform.isFrame.announced_eq
    have hframe := hwrittenForm.isFrame
    rw [List.length_drop, ← hannounced] at hframe
    rw [← hannounced] at hz
    refine ⟨z, written, hfirst, hsecond, hz, hwritten, hframe, ?_⟩
    constructor
    · rintro rfl
      have := hframe.announced_eq
      omega
    · rintro rfl
      refine hframe.unique ?_
      rw [Nat.sub_zero, List.drop_zero, List.drop_zero, hannounced]
      exact hform.isFrame

/-- The smaller prime of the example. -/
def sampleP : Bytes := [206, 106, 48, 20, 29, 182, 253, 97, 11, 148, 132, 88, 252, 1, 252, 91]

/-- The larger prime of the example. -/
def sampleQ : Bytes := [233, 215, 225, 161, 100, 23, 104, 3, 42, 129, 177, 139, 21, 38, 177, 191]

/-- The key of the sample is read with a zero in front of each prime, and written without. -/
theorem privateBytes_roundTrip_samplePrimes :
    ∃ sk, ofPrimes exampleP exampleQ = .ok sk ∧
      ofBytes ([17, 0, 0, 0] ++ (0 :: sampleP ++ 0 :: sampleQ)) = .ok sk ∧
      sk.toBytes = .ok ([16, 0, 0, 0] ++ (sampleP ++ sampleQ)) ∧
      ofBytes ([16, 0, 0, 0] ++ (sampleP ++ sampleQ)) = .ok sk := by
  obtain ⟨sk, hsk⟩ := exists_ofPrimes_example
  obtain ⟨hnew, hany⟩ := privateBytes_roundTrip
  obtain ⟨hread, hwrite⟩ := hany ([17, 0, 0, 0] ++ (0 :: sampleP ++ 0 :: sampleQ)) (by decide)
  have hpadded : ofBytes ([17, 0, 0, 0] ++ (0 :: sampleP ++ 0 :: sampleQ)) = .ok sk := by
    rw [hread, if_neg (by decide), if_neg (by decide), ← hsk]
    exact congrArg₂ (fun p q : Nat => ofPrimes p q) (by decide +kernel) (by decide +kernel)
  obtain ⟨z, written, hz, -, -, hwritten, hframe, -⟩ := hwrite sk hpadded
  obtain rfl : 1 = z := (by decide : 1 = leadingZeros _).trans hz
  obtain rfl := hframe.unique (b := [16, 0, 0, 0] ++ (sampleP ++ sampleQ)) ⟨by decide, by decide, by decide⟩
  obtain ⟨data, hdata, hback⟩ := hnew exampleP exampleQ sk hsk
  rw [hwritten] at hdata
  cases hdata
  exact ⟨sk, hsk, hpadded, hwritten, hback⟩

end PrivateKey

end Paillier
