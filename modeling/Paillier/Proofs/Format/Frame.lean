import Paillier.Format.KeyBytes
import Paillier.Proofs.Number.BigEndian

/-!
# The length in front of a key

A key as bytes is a frame: a length in four bytes and a body. The length need not be that of the body; whoever reads
the frame decides what it counts.

## Main statements

* `exists_isFrame` — every length of four bytes can be written in front of a body.
* `IsFrame.unique` — a frame is its length and its body.
* `runOn_recordingRejection` — recording a rejection changes neither the outcome nor the entropy.
-/

namespace Paillier

attribute [local instance] natPow

/-! ## Lengths -/

theorem decodeLength_inj {a b : Bytes} (hlen : a.length = b.length) (h : decodeLength a = decodeLength b) :
    a = b := by
  refine List.reverse_inj.mp (ofBigEndian_inj ?_ h)
  rw [List.length_reverse, List.length_reverse, hlen]

/-- Writing a length finds four bytes that are read as it. -/
theorem encodeLength_eq_ok {k : Nat} (h : k < 2 ^ (32 : Nat)) :
    ∃ front, encodeLength k = .ok front ∧ front.length = lengthBytes ∧ decodeLength front = k := by
  refine ⟨_, if_pos h, by rw [List.length_map, List.length_range], ?_⟩
  show ofBigEndian [UInt8.ofNat (k / 256 ^ 3), UInt8.ofNat (k / 256 ^ 2), UInt8.ofNat (k / 256 ^ 1),
    UInt8.ofNat (k / 256 ^ 0)] = k
  simp only [ofBigEndian, List.foldl_cons, List.foldl_nil, UInt8.toNat_ofNat']
  omega

/-! ## Frames -/

/-- The length that the first four bytes announce. -/
def announced (data : Bytes) : Nat := decodeLength (data.take lengthBytes)

/-- The bytes after the length. -/
def payload (data : Bytes) : Bytes := data.drop lengthBytes

theorem length_payload (data : Bytes) : (payload data).length = data.length - lengthBytes := List.length_drop

/-- The bytes are this length, followed by this body. -/
structure IsFrame (data : Bytes) (length : Nat) (body : Bytes) : Prop where
  length_le : lengthBytes ≤ data.length
  announced_eq : announced data = length
  payload_eq : payload data = body

theorem IsFrame.length_eq {data body : Bytes} {length : Nat} (h : IsFrame data length body) :
    data.length = lengthBytes + body.length := by
  rw [← h.payload_eq, length_payload, Nat.add_sub_cancel' h.length_le]

/-- **A frame is determined by its length and its body.** -/
theorem IsFrame.unique {a b body : Bytes} {length : Nat} (ha : IsFrame a length body) (hb : IsFrame b length body) :
    a = b := by
  have hfront : a.take lengthBytes = b.take lengthBytes := by
    refine decodeLength_inj ?_ (ha.announced_eq.trans hb.announced_eq.symm)
    rw [List.length_take_of_le ha.length_le, List.length_take_of_le hb.length_le]
  calc a = a.take lengthBytes ++ payload a := (List.take_append_drop lengthBytes a).symm
    _ = b.take lengthBytes ++ payload b := by rw [hfront, ha.payload_eq, hb.payload_eq]
    _ = b := List.take_append_drop lengthBytes b

/-- **Every length of four bytes can be written in front of a body.** -/
theorem exists_isFrame {k : Nat} (h : k < 2 ^ (32 : Nat)) (body : Bytes) :
    ∃ front, encodeLength k = .ok front ∧ IsFrame (front ++ body) k body := by
  obtain ⟨front, hfront, hlen, hvalue⟩ := encodeLength_eq_ok h
  refine ⟨front, hfront, ?_, ?_, List.drop_left' hlen⟩
  · rw [List.length_append, hlen]
    exact Nat.le_add_right _ _
  · rw [announced, List.take_left' hlen, hvalue]

/-! ## Rejections -/

/-- The reader of a failure sees the failure of the step that was rejected. -/
theorem mapError_bind {ε ε' α β : Type} (x : Except ε α) (f : α → Except ε β) (g : ε → ε') :
    (x >>= f).mapError g = x.mapError g >>= fun a => (f a).mapError g := by
  cases x <;> rfl

theorem mapError_unreadable_failure {α : Type} (outcome : Outcome α) :
    (outcome.mapError Rejection.unreadable).mapError Rejection.failure = outcome := by
  cases outcome <;> rfl

theorem mapError_unsound_failure {α : Type} (outcome : Outcome α) :
    (outcome.mapError Rejection.unsound).mapError Rejection.failure = outcome := by
  cases outcome <;> rfl

/-- **What is too short is refused; from the rest the length is split off.** -/
theorem mapError_splitLength_bind {α : Type} (data : Bytes) (read : Nat × Bytes → Except Rejection α) :
    (splitLength data >>= read).mapError Rejection.failure =
      if data.length < 36 then refuse .keyTooShort
      else (read (announced data, payload data)).mapError Rejection.failure := by
  by_cases hshort : data.length < 36
  · have hsplit : splitLength data = .error .tooShort := if_pos hshort
    rw [if_pos hshort, hsplit]
    rfl
  · have hsplit : splitLength data = .ok (announced data, payload data) := if_neg hshort
    rw [if_neg hshort, hsplit, ok_bind]

/-- **Recording why a form was rejected changes neither the outcome nor the entropy.** -/
theorem runOn_recordingRejection {α : Type} (kind : KeyKind) (read : Except Rejection α) (source : Source) :
    ∃ events, (recordingRejection kind read).runOn source =
      (read.mapError Rejection.failure, { source with events }) := by
  cases read with
  | ok a => exact ⟨source.events, rfl⟩
  | error rejection =>
    cases hevent : rejection.event? kind with
    | none =>
      refine ⟨source.events, ?_⟩
      simp only [recordingRejection, hevent]
      rfl
    | some event =>
      refine ⟨event :: source.events, ?_⟩
      simp only [recordingRejection, hevent]
      rfl

end Paillier
