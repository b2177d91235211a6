import Paillier.Ciphertext.Tracked
import Paillier.Proofs.Ciphertext.Bytes
import Paillier.Proofs.Format.KeyBytes

/-!
# Buffers are filled completely or not at all

A key or a ciphertext that has been encoded is written to a buffer that is long enough for it; any other buffer is left
alone, and its owner is told how long it has to be. For an encryption that is still to be done the length is not known. It
asks for room for the longest ciphertext before it draws anything, and then every ciphertext fits.

What a call leaves of the buffer if it fails is told by the call in place, which stores one byte after the other in the
buffer that it was given.

## Main statements

* `allOrNothing_writeInto` — what has been encoded is written as a whole or not at all.
* `PublicKey.Sound.encryptsInto` — the ways in which an encryption into a buffer can end.
* `PublicKey.performs_encryptInPlace` — the encryption in place does the same, and if it fails the buffer is as it was.
* `buffers_all_or_nothing` — what that means for keys that were accepted.
-/

namespace Paillier

open Number (positive)

/-! ## Writing -/

/--
All of `data` is written to the front of a buffer that is long enough, and what is behind keeps its value; a shorter
buffer is left alone. With the length that is asked for then, the write succeeds.
-/
structure AllOrNothing (write : Bytes → Outcome (WriteOutcome × Bytes)) (data : Bytes) : Prop where
  written_iff : ∀ buffer k,
    (∃ after, write buffer = .ok (.written k, after)) ↔ k = data.length ∧ data.length ≤ buffer.length
  written : ∀ buffer k after, write buffer = .ok (.written k, after) →
    after.take k = data ∧ after.drop k = buffer.drop k ∧ after.length = buffer.length
  required : ∀ buffer, buffer.length < data.length → write buffer = .ok (.required data.length, buffer)
  again : ∀ buffer k after, write buffer = .ok (.required k, after) →
    ∀ other : Bytes, other.length = k → ∃ filled, write other = .ok (.written k, filled)

section

variable {data buffer after : Bytes} {k : Nat}

theorem writeInto_eq_written_iff :
    writeInto data buffer = (.written k, after) ↔
      k = data.length ∧ data.length ≤ buffer.length ∧ after = data ++ buffer.drop data.length := by
  by_cases h : buffer.length < data.length
  · simp only [writeInto_of_lt h, Prod.mk.injEq, reduceCtorEq, false_and, false_iff]
    omega
  · have h := Nat.not_lt.mp h
    simp only [writeInto_of_le h, Prod.mk.injEq, WriteOutcome.written.injEq, h, true_and]
    exact and_congr eq_comm eq_comm

theorem writeInto_eq_required_iff :
    writeInto data buffer = (.required k, after) ↔
      k = data.length ∧ buffer.length < data.length ∧ after = buffer := by
  by_cases h : buffer.length < data.length
  · simp only [writeInto_of_lt h, Prod.mk.injEq, WriteOutcome.required.injEq, h, true_and]
    exact and_congr eq_comm eq_comm
  · simp only [writeInto_of_le (Nat.not_lt.mp h), Prod.mk.injEq, reduceCtorEq, false_and, false_iff]
    exact fun hshort => h hshort.2.1

/-- What was written stands in front of what the buffer held. -/
theorem written_parts (h : data.length ≤ buffer.length) :
    (data ++ buffer.drop data.length).take data.length = data ∧
      (data ++ buffer.drop data.length).drop data.length = buffer.drop data.length ∧
      (data ++ buffer.drop data.length).length = buffer.length :=
  ⟨List.take_left' rfl, List.drop_left' rfl, (WrittenTo.written h).length_eq⟩

/-- **What has been encoded is written as a whole or not at all.** -/
theorem allOrNothing_writeInto (data : Bytes) : AllOrNothing (fun buffer => .ok (writeInto data buffer)) data where
  written_iff buffer k := by
    simp only [Except.ok.injEq, writeInto_eq_written_iff]
    exact ⟨fun ⟨_, hk, hfits, _⟩ => ⟨hk, hfits⟩, fun ⟨hk, hfits⟩ => ⟨_, hk, hfits, rfl⟩⟩
  written buffer k after h := by
    obtain ⟨rfl, hfits, rfl⟩ := writeInto_eq_written_iff.mp (Except.ok.inj h)
    exact written_parts hfits
  required buffer h := by rw [writeInto_of_lt h]
  again buffer k after h other hother := by
    obtain ⟨rfl, -, -⟩ := writeInto_eq_required_iff.mp (Except.ok.inj h)
    exact ⟨_, by rw [writeInto_of_le (Nat.le_of_eq hother.symm)]⟩

end

/-- So is what is still to be encoded, if it can be. Both kinds of keys are written so. -/
theorem allOrNothing_of_eq_ok {form : Outcome Bytes} {data : Bytes} (h : form = .ok data) :
    AllOrNothing (fun buffer => do return writeInto (← form) buffer) data := by
  rw [h]
  exact allOrNothing_writeInto data

/-! ## Encryption into a buffer -/

namespace PublicKey

variable {pk : PublicKey} {plaintext buffer : Bytes} {source : Source} {m : Number}

/--
How an encryption into a buffer ends for a plaintext that was read. It asks for room for the longest ciphertext, before
anything is drawn; or it writes what the encryption to bytes returns; or it fails as that does, for want of entropy.
-/
structure EncryptsInto (pk : PublicKey) (plaintext : Bytes) : Prop where
  required_iff : ∀ buffer source,
    (∃ k after, ((pk.encryptInto plaintext buffer).runOn source).1 = .ok (.required k, after)) ↔
      buffer.length < pk.ciphertextLength
  required : ∀ buffer source, buffer.length < pk.ciphertextLength →
    (pk.encryptInto plaintext buffer).runOn source = (.ok (.required pk.ciphertextLength, buffer), source)
  written : ∀ buffer source k after rest,
    (pk.encryptInto plaintext buffer).runOn source = (.ok (.written k, after), rest) →
    (1 ≤ k ∧ k ≤ pk.ciphertextLength) ∧ (pk.encryptBytes plaintext).runOn source = (.ok (after.take k), rest) ∧
      after.drop k = buffer.drop k ∧ after.length = buffer.length
  failed : ∀ buffer source failure rest,
    (pk.encryptInto plaintext buffer).runOn source = (.error failure, rest) →
    failure = .refused .entropyFailure ∧ (pk.encryptBytes plaintext).runOn source = (.error failure, rest)

/-- What is not read is refused before anything else. -/
theorem runOn_encryptInto_of_refuse {cause : Error} (hread : pk.plaintextOfBytes plaintext = refuse cause)
    (buffer : Bytes) (source : Source) : (pk.encryptInto plaintext buffer).runOn source = (refuse cause, source) := by
  rw [encryptInto, hread]
  rfl

theorem runOn_encryptInto_of_lt (hread : pk.plaintextOfBytes plaintext = .ok m)
    (hshort : buffer.length < pk.ciphertextLength) :
    (pk.encryptInto plaintext buffer).runOn source = (.ok (.required pk.ciphertextLength, buffer), source) := by
  rw [encryptInto, hread, Sampler.liftM_ok_bind, if_pos hshort, Sampler.runOn_pure]

/-- **With enough room the bytes of the ciphertext are written.** -/
theorem runOn_encryptInto_of_le (hread : pk.plaintextOfBytes plaintext = .ok m)
    (hlong : pk.ciphertextLength ≤ buffer.length) (source : Source) :
    (pk.encryptInto plaintext buffer).runOn source =
      (((pk.encryptBytes plaintext).runOn source).1.map (writeInto · buffer),
        ((pk.encryptBytes plaintext).runOn source).2) := by
  rw [encryptInto, encryptBytes, hread, Sampler.liftM_ok_bind, Sampler.liftM_ok_bind, if_neg (Nat.not_lt.mpr hlong),
    Sampler.runOn_bind, Sampler.runOn_bind]
  rcases (pk.encrypt m).runOn source with ⟨_ | c, rest⟩ <;> rfl

namespace Sound

theorem plaintextOfBytes_eq_ok_iff (h : pk.Sound) :
    pk.plaintextOfBytes plaintext = .ok m ↔
      (plaintext ≠ [] ∧ AreBelow plaintext pk.n) ∧ positive (ofBigEndian plaintext) = m := by
  rw [h.plaintextOfBytes_eq]
  split
  · next hempty => simp [hempty]
  · next hne =>
    split
    · next hbelow => simp [hne, hbelow]
    · next hnot => simp [hnot]

/-- **The bytes of a ciphertext are there, and always fit**, so there is no failure but for want of entropy. -/
theorem encryptBytes_fits (h : pk.Sound) (hread : pk.plaintextOfBytes plaintext = .ok m) :
    (pk.encryptBytes plaintext).Yields pk.plaintextLength fun c =>
      1 ≤ c.length ∧ c.length ≤ pk.ciphertextLength := by
  obtain ⟨⟨hne, hbelow⟩, -⟩ := h.plaintextOfBytes_eq_ok_iff.mp hread
  refine (h.yields_encryptBytes hne hbelow).mono ?_
  rintro _ ⟨j, hj, rfl⟩
  have hvalid := h.validCiphertext_encryption (k := ofBigEndian plaintext) hj
  have hbytes := h.hasBytes hvalid.denotes (h.one_le_of_coprime hvalid.coprime) hvalid.lt
  have hfits := And.intro hbytes.one_le_length hbytes.length_le
  rwa [Number.magnitude_ofNat] at hfits

/-- With enough room there is a ciphertext that fits, or no entropy. -/
theorem runOn_encryptInto_cases (h : pk.Sound) (hread : pk.plaintextOfBytes plaintext = .ok m)
    (hlong : pk.ciphertextLength ≤ buffer.length) (source : Source) :
    (∃ c rest, (pk.encryptBytes plaintext).runOn source = (.ok c, rest) ∧
      (pk.encryptInto plaintext buffer).runOn source = (.ok (.written c.length, c ++ buffer.drop c.length), rest) ∧
      (1 ≤ c.length ∧ c.length ≤ pk.ciphertextLength)) ∨
    ∃ rest, (pk.encryptBytes plaintext).runOn source = (refuse .entropyFailure, rest) ∧
      (pk.encryptInto plaintext buffer).runOn source = (refuse .entropyFailure, rest) := by
  have hrun := runOn_encryptInto_of_le hread hlong source
  rcases h.encryptBytes_fits hread source with ⟨c, rest, hc, hone, hle⟩ | ⟨rest, hstarved, -⟩
  · rw [hc, Except.map, writeInto_of_le (Nat.le_trans hle hlong)] at hrun
    exact Or.inl ⟨c, rest, hc, hrun, hone, hle⟩
  · rw [hstarved] at hrun
    exact Or.inr ⟨rest, hstarved, hrun⟩

/-- **Which of the ways it ends in depends on the buffer first, and then on the source.** -/
theorem encryptsInto (h : pk.Sound) (hread : pk.plaintextOfBytes plaintext = .ok m) : pk.EncryptsInto plaintext where
  required_iff buffer source := by
    constructor
    · rintro ⟨k, after, hrequired⟩
      by_contra hlong
      rcases h.runOn_encryptInto_cases hread (Nat.not_lt.mp hlong) source with ⟨c, rest, -, hrun, -⟩ | ⟨rest, -, hrun⟩
      · rw [hrun] at hrequired
        cases hrequired
      · rw [hrun] at hrequired
        cases hrequired
    · intro hshort
      exact ⟨_, _, congrArg Prod.fst (runOn_encryptInto_of_lt hread hshort)⟩
  required buffer source hshort := runOn_encryptInto_of_lt hread hshort
  written buffer source k after rest hwritten := by
    rcases Nat.lt_or_ge buffer.length pk.ciphertextLength with hshort | hlong
    · rw [runOn_encryptInto_of_lt hread hshort] at hwritten
      cases hwritten
    · rcases h.runOn_encryptInto_cases hread hlong source with ⟨c, left, hc, hrun, hone, hle⟩ | ⟨left, -, hrun⟩
      · rw [hrun] at hwritten
        cases hwritten
        obtain ⟨htake, hdrop, hlen⟩ := written_parts (Nat.le_trans hle hlong)
        rw [htake, hdrop]
        exact ⟨⟨hone, hle⟩, hc, rfl, hlen⟩
      · rw [hrun] at hwritten
        cases hwritten
  failed buffer source failure rest hfailed := by
    rcases Nat.lt_or_ge buffer.length pk.ciphertextLength with hshort | hlong
    · rw [runOn_encryptInto_of_lt hread hshort] at hfailed
      cases hfailed
    · rcases h.runOn_encryptInto_cases hread hlong source with ⟨c, left, -, hrun, -⟩ | ⟨left, hstarved, hrun⟩
      · rw [hrun] at hfailed
        cases hfailed
      · rw [hrun] at hfailed
        cases hfailed
        exact ⟨rfl, hstarved⟩

end Sound

end PublicKey

/-! ## In place -/

/-- What a call works on: the source that it draws from, and the buffer that it stores bytes in. -/
structure Workspace where
  source : Source
  buffer : Bytes

/-- A computation that draws entropy, stores bytes in a buffer and may fail. -/
abbrev InPlace := ExceptT Failure (StateM Workspace)

namespace InPlace

variable {α β : Type}

/-- Runs the computation. -/
def runOn (call : InPlace α) (workspace : Workspace) : Outcome α × Workspace := (ExceptT.run call).run workspace

/-- A step that does not use the buffer. -/
def ofSampler (sampler : Sampler α) : InPlace α :=
  ExceptT.mk fun workspace =>
    ((sampler.runOn workspace.source).1, { workspace with source := (sampler.runOn workspace.source).2 })

/-- Stores one byte at a place of the buffer. -/
def storeByte (place : Nat) (b : UInt8) : InPlace Unit :=
  modify fun workspace => { workspace with buffer := workspace.buffer.set place b }

/-- Stores bytes one after the other, from a place on. -/
def store : (place : Nat) → Bytes → InPlace Unit
  | _, [] => pure ()
  | place, b :: data => do
    storeByte place b
    store (place + 1) data

/-- Stores all of `data` at the front of the buffer if it fits. -/
def write (data : Bytes) : InPlace WriteOutcome := do
  let workspace ← get
  if workspace.buffer.length < data.length then return .required data.length
  else
    store 0 data
    return .written data.length

/-- The call gives what was computed from the buffer, and leaves it in the buffer; if it fails, the buffer is as it was. -/
def Performs (call : InPlace WriteOutcome) (compute : Bytes → Sampler (WriteOutcome × Bytes)) : Prop :=
  ∀ source buffer, call.runOn ⟨source, buffer⟩ =
    match (compute buffer).runOn source with
    | (.ok (outcome, after), rest) => (.ok outcome, ⟨rest, after⟩)
    | (.error failure, rest) => (.error failure, ⟨rest, buffer⟩)

theorem runOn_bind (call : InPlace α) (next : α → InPlace β) (workspace : Workspace) :
    runOn (call >>= next) workspace =
      match call.runOn workspace with
      | (.ok a, rest) => (next a).runOn rest
      | (.error failure, rest) => (.error failure, rest) := by
  simp only [runOn, ExceptT.run_bind, StateT.run_bind]
  split <;> next h => rw [h]; rfl

theorem runOn_ofSampler (sampler : Sampler α) (source : Source) (buffer : Bytes) :
    (ofSampler sampler).runOn ⟨source, buffer⟩ =
      ((sampler.runOn source).1, ⟨(sampler.runOn source).2, buffer⟩) := rfl

/-- **Storing bytes one after the other overwrites as many as there are.** The place moves on as bytes are stored. -/
theorem runOn_store (source : Source) (front data old back : Bytes) (hlen : old.length = data.length) :
    (store front.length data).runOn ⟨source, front ++ old ++ back⟩ = (.ok (), ⟨source, front ++ data ++ back⟩) := by
  induction data generalizing front old with
  | nil =>
    obtain rfl := List.length_eq_zero_iff.mp hlen
    rfl
  | cons b data ih =>
    obtain ⟨a, old, rfl⟩ := List.exists_cons_of_length_eq_add_one hlen
    have hset : (front ++ (a :: old) ++ back).set front.length b = (front ++ [b]) ++ old ++ back := by
      rw [List.append_assoc, List.set_append_right _ _ (Nat.le_refl _), Nat.sub_self, List.cons_append, List.set_cons_zero]
      simp only [List.append_assoc, List.cons_append, List.nil_append]
    have hnext := ih (front ++ [b]) old (Nat.succ.inj hlen)
    rw [List.length_append, List.length_singleton] at hnext
    have hbyte : (storeByte front.length b).runOn ⟨source, front ++ (a :: old) ++ back⟩ =
        (.ok (), ⟨source, (front ++ [b]) ++ old ++ back⟩) := by
      rw [← hset]
      rfl
    rw [store, runOn_bind, hbyte]
    dsimp only
    rw [hnext]
    simp only [List.append_assoc, List.singleton_append]

/-- **The write in place leaves what was computed.** -/
theorem runOn_write (data buffer : Bytes) (source : Source) :
    (write data).runOn ⟨source, buffer⟩ = (.ok (writeInto data buffer).1, ⟨source, (writeInto data buffer).2⟩) := by
  rw [write, runOn_bind]
  show runOn (if buffer.length < data.length then _ else _) _ = _
  by_cases h : buffer.length < data.length
  · rw [if_pos h, writeInto_of_lt h]
    rfl
  · have h := Nat.not_lt.mp h
    have hstore := runOn_store source [] data (buffer.take data.length) (buffer.drop data.length)
      (List.length_take_of_le h)
    rw [List.nil_append, List.nil_append, List.take_append_drop, List.length_nil] at hstore
    rw [if_neg (Nat.not_lt.mpr h), writeInto_of_le h, runOn_bind, hstore]
    rfl

end InPlace

/-- Encrypts a plaintext given as bytes, and stores the ciphertext in the buffer. -/
def PublicKey.encryptInPlace (pk : PublicKey) (plaintext : Bytes) : InPlace WriteOutcome := do
  let m ← InPlace.ofSampler (liftM (pk.plaintextOfBytes plaintext))
  let workspace ← get
  if workspace.buffer.length < pk.ciphertextLength then return .required pk.ciphertextLength
  else
    let c ← InPlace.ofSampler (pk.encrypt m)
    InPlace.write (bigEndian c.magnitude)

/-- **The encryption in place does what was computed**, and touches the buffer only when nothing can fail any more. -/
theorem PublicKey.performs_encryptInPlace (pk : PublicKey) (plaintext : Bytes) :
    (pk.encryptInPlace plaintext).Performs (pk.encryptInto plaintext) := by
  intro source buffer
  rw [encryptInPlace, encryptInto, InPlace.runOn_bind, InPlace.runOn_ofSampler, Sampler.runOn_bind,
    Sampler.runOn_outcome]
  cases pk.plaintextOfBytes plaintext with
  | error failure => rfl
  | ok m =>
    dsimp only
    rw [InPlace.runOn_bind]
    show InPlace.runOn (if buffer.length < pk.ciphertextLength then _ else _) _ = _
    by_cases hshort : buffer.length < pk.ciphertextLength
    · rw [if_pos hshort, if_pos hshort]
      rfl
    · rw [if_neg hshort, if_neg hshort, InPlace.runOn_bind, InPlace.runOn_ofSampler, Sampler.runOn_bind]
      rcases (pk.encrypt m).runOn source with ⟨failure | c, rest⟩
      · rfl
      · exact InPlace.runOn_write _ _ _

/-! ## Accepted keys -/

/--
What a public key does to buffers. Its own bytes are written as a whole or not at all. A plaintext that is not read is
refused as by the encryption to bytes, and from any other the ciphertext is written in one of the ways above. The same is
done in place.
-/
structure PublicKey.FillsBuffers (pk : PublicKey) : Prop where
  writeTo : ∃ data, pk.toBytes = .ok data ∧ AllOrNothing pk.writeTo data
  reads : ∀ plaintext, (∃ m, pk.plaintextOfBytes plaintext = .ok m) ∨
    ∃ cause, pk.plaintextOfBytes plaintext = refuse cause
  refuses : ∀ plaintext cause, pk.plaintextOfBytes plaintext = refuse cause → ∀ source,
    (pk.encryptBytes plaintext).runOn source = (refuse cause, source) ∧
      ∀ buffer, (pk.encryptInto plaintext buffer).runOn source = (refuse cause, source)
  encryptsInto : ∀ plaintext m, pk.plaintextOfBytes plaintext = .ok m → pk.EncryptsInto plaintext
  inPlace : ∀ plaintext, (pk.encryptInPlace plaintext).Performs (pk.encryptInto plaintext)

/-- **Every sound key fills buffers so.** -/
theorem PublicKey.Sound.fillsBuffers {pk : PublicKey} (h : pk.Sound) : pk.FillsBuffers where
  writeTo := by
    obtain ⟨data, hdata⟩ := h.exists_toBytes_eq
    exact ⟨data, hdata, allOrNothing_of_eq_ok hdata⟩
  reads plaintext := by
    rw [h.plaintextOfBytes_eq]
    split
    · exact Or.inr ⟨_, rfl⟩
    · split
      · exact Or.inl ⟨_, rfl⟩
      · exact Or.inr ⟨_, rfl⟩
  refuses plaintext cause hread source :=
    ⟨runOn_encryptBytes_of_refuse hread source, fun buffer => runOn_encryptInto_of_refuse hread buffer source⟩
  encryptsInto plaintext m hread := h.encryptsInto hread
  inPlace := performs_encryptInPlace pk

/-- **What was written is decrypted to the plaintext, in canonical form.** -/
theorem PrivateKey.Sound.decryptBytes_of_written {sk : PrivateKey} (h : sk.Sound) {plaintext buffer after : Bytes}
    {source rest : Source} {k : Nat}
    (hwritten : (sk.publicKey.encryptInto plaintext buffer).runOn source = (.ok (.written k, after), rest)) :
    sk.decryptBytes (after.take k) = .ok (canonicalBytes (ofBigEndian plaintext)) := by
  have hfills := h.publicKey.fillsBuffers
  rcases hfills.reads plaintext with ⟨m, hread⟩ | ⟨cause, hread⟩
  · obtain ⟨⟨hne, hbelow⟩, -⟩ := h.publicKey.plaintextOfBytes_eq_ok_iff.mp hread
    obtain ⟨-, hbytes, -, -⟩ := (hfills.encryptsInto plaintext m hread).written _ _ _ _ _ hwritten
    exact (h.readsBack hne hbelow).yields.of_runOn_eq_ok hbytes
  · rw [PublicKey.runOn_encryptInto_of_refuse hread] at hwritten
    cases hwritten

/--
**Buffers are filled completely or not at all**, by every key that was accepted and by every ciphertext that was kept
with its nonce, whatever a buffer holds and wherever the source ends.

A ciphertext is never longer than the room that was asked for before anything was drawn, so no entropy is spent in vain.
If an encryption fails, the buffer in place is as it was.
-/
theorem buffers_all_or_nothing :
    (∀ (n : Nat) (pk : PublicKey), PublicKey.ofModulus n = .ok pk → pk.FillsBuffers) ∧
    (∀ (p q : Nat) (sk : PrivateKey), PrivateKey.ofPrimes p q = .ok sk →
      sk.publicKey.FillsBuffers ∧ (∃ data, sk.toBytes = .ok data ∧ AllOrNothing sk.writeTo data) ∧
      (ExactAt p → ExactAt q → ∀ plaintext buffer source k after rest,
        (sk.publicKey.encryptInto plaintext buffer).runOn source = (.ok (.written k, after), rest) →
        sk.decryptBytes (after.take k) = .ok (canonicalBytes (ofBigEndian plaintext)))) ∧
    ∀ tracked : TrackedCiphertext, AllOrNothing (fun buffer => .ok (tracked.writeTo buffer)) tracked.bytes := by
  refine ⟨fun n pk hpk => ?_, fun p q sk hsk => ⟨?_, ?_, fun hp hq plaintext buffer source k after rest hwritten => ?_⟩,
    fun tracked => allOrNothing_writeInto tracked.bytes⟩
  · obtain ⟨hsound, -⟩ := PublicKey.sound_of_ofModulus hpk
    exact hsound.fillsBuffers
  · exact (PrivateKey.sound_publicKey_of_ofPrimes hsk).fillsBuffers
  · obtain ⟨data, hdata, -⟩ := PrivateKey.exists_toBytes_of_ofPrimes hsk
    exact ⟨data, hdata, allOrNothing_of_eq_ok hdata⟩
  · obtain ⟨hsound, -⟩ := PrivateKey.sound_of_ofPrimes hsk hp hq
    exact hsound.decryptBytes_of_written hwritten

/--
Under the key of the example a ciphertext may have 64 bytes, so a buffer with one byte less is left alone. With the nonce
one the ciphertext of nine has 33 bytes; with no entropy at all the buffer in place is as it was.
-/
theorem buffers_all_or_nothing_example :
    (∃ pk data after, PublicKey.ofModulus (exampleP * exampleQ : Nat) = .ok pk ∧ pk.toBytes = .ok data ∧
      pk.writeTo data = .ok (.written data.length, after)) ∧
    ExactAt exampleP ∧ ExactAt exampleQ ∧ ∃ sk, PrivateKey.ofPrimes exampleP exampleQ = .ok sk ∧
      (∀ source, (sk.publicKey.encryptInto [0, 9] (List.replicate 63 7)).runOn source =
        (.ok (.required 64, List.replicate 63 7), source)) ∧
      (∃ after rest, (sk.publicKey.encryptInto [0, 9] (List.replicate 66 7)).runOn ⟨List.replicate 31 0 ++ [1], []⟩ =
          (.ok (.written 33, after), rest) ∧
        sk.decryptBytes (after.take 33) = .ok [9] ∧ after.drop 33 = List.replicate 33 7) ∧
      (sk.publicKey.encryptInPlace [0, 9]).runOn ⟨⟨[], []⟩, List.replicate 64 7⟩ =
        (refuse .entropyFailure, ⟨⟨[], []⟩, List.replicate 64 7⟩) := by
  obtain ⟨hpublic, hprivate, -⟩ := buffers_all_or_nothing
  obtain ⟨pk, hpk⟩ := PublicKey.exists_ofModulus_example
  obtain ⟨data, hdata, hwrites⟩ := (hpublic _ _ hpk).writeTo
  obtain ⟨after, hafter⟩ := (hwrites.written_iff data data.length).mpr ⟨rfl, Nat.le_refl _⟩
  refine ⟨⟨pk, data, after, hpk, hdata, hafter⟩, exactAt_exampleP, exactAt_exampleQ, ?_⟩
  obtain ⟨sk, hsk⟩ := PrivateKey.exists_ofPrimes_example
  obtain ⟨hfills, -, hdecrypts⟩ := hprivate _ _ _ hsk
  obtain ⟨hsound, hn⟩ := PrivateKey.sound_of_ofPrimes hsk exactAt_exampleP exactAt_exampleQ
  have hkey : sk.publicKey = ⟨positive (exampleP * exampleQ)⟩ := by
    rw [← hn, ← hsound.publicKey.modulus_eq]
  have hlen : sk.publicKey.ciphertextLength = 64 := by
    rw [hkey]
    decide +kernel
  have hread : ∃ m, sk.publicKey.plaintextOfBytes [0, 9] = .ok m :=
    ⟨_, hsound.publicKey.plaintextOfBytes_eq_ok (by decide) (by rw [hn]; decide +kernel)⟩
  obtain ⟨m, hread⟩ := hread
  have hencrypts := hfills.encryptsInto _ _ hread
  refine ⟨sk, hsk, fun source => ?_, ?_, ?_⟩
  · have hshort := hencrypts.required (List.replicate 63 7) source (by rw [hlen]; decide)
    rwa [hlen] at hshort
  · have houtcome : ((sk.publicKey.encryptInto [0, 9] (List.replicate 66 7)).runOn
        ⟨List.replicate 31 0 ++ [1], []⟩).1.map Prod.fst = .ok (.written 33) := by
      rw [hkey]
      decide +kernel
    rcases hrun : (sk.publicKey.encryptInto [0, 9] (List.replicate 66 7)).runOn ⟨List.replicate 31 0 ++ [1], []⟩ with
      ⟨_ | ⟨outcome, after⟩, rest⟩
    · rw [hrun] at houtcome
      cases houtcome
    · rw [hrun] at houtcome
      cases houtcome
      obtain ⟨-, -, hback, -⟩ := hencrypts.written _ _ _ _ _ hrun
      have hcanonical : canonicalBytes (ofBigEndian [0, 9]) = [9] := by decide +kernel
      have hnine := hdecrypts exactAt_exampleP exactAt_exampleQ _ _ _ _ _ _ hrun
      rw [hcanonical] at hnine
      exact ⟨after, rest, rfl, hnine, hback⟩
  · rw [hfills.inPlace, hkey]
    have hempty : ((⟨positive (exampleP * exampleQ)⟩ : PublicKey).encryptInto [0, 9] (List.replicate 64 7)).runOn
        ⟨[], []⟩ = (refuse .entropyFailure, ⟨[], []⟩) := by decide +kernel
    rw [hempty]
    rfl

end Paillier
