import Kmwarp.Core.Wire.RoundTrip

/-!
# Frames that describe themselves

A frame announces the length of its payload, and a payload the length of its variable
field.  No announced length is cut off: a field that would not fit is refused before
anything is written.
-/

namespace Kmwarp.Wire

open Foundation

/-- A payload field of variable length: how many bytes come before its length, and the
most bytes it may have. -/
structure VariableField where
  offset : Nat
  bytes : List UInt8
  maxLen : Nat

def variableField : Message → Option VariableField
  | .hello _ peerName => some ⟨2, asBytes peerName, 65531⟩
  | .clipboardText _ bytes => some ⟨1, bytes, 65532⟩
  | .pairSpakeA msg | .pairSpakeB msg => some ⟨0, msg, 65533⟩
  | .pairCertExchange certDer _ => some ⟨0, certDer, 65501⟩
  | _ => none

/-- The variable field is longer than it may be. -/
def Oversized (msg : Message) : Prop :=
  ∃ field ∈ variableField msg, field.maxLen < field.bytes.length

/-- The limits of the fields are what the payload length leaves for them. -/
theorem oversized_iff {msg : Message} :
    Oversized msg ↔ maxPayloadLen < (payloadOf msg).length := by
  rw [length_payloadOf]
  cases msg
  case hello | clipboardText | pairSpakeA | pairSpakeB | pairCertExchange =>
    simp only [Oversized, variableField, Option.mem_some_iff, exists_eq_left', payloadLenOf,
      maxPayloadLen]
    omega
  all_goals simp [Oversized, variableField, payloadLenOf, maxPayloadLen]

theorem fits_iff_not_oversized {msg : Message} : Fits msg ↔ ¬ Oversized msg := by
  rw [Fits, oversized_iff, length_payloadOf, Nat.not_lt]

/-- Two bytes hold the exact length of what they announce. -/
structure Announces (lenField bytes : List UInt8) : Prop where
  width : lenField.length = 2
  exact : ofLe lenField = bytes.length

theorem announces_toLe {bytes : List UInt8} (fits : bytes.length ≤ maxPayloadLen) :
    Announces (toLe 2 bytes.length) bytes where
  width := length_toLe 2 bytes.length
  exact := ofLe_toLe_of_lt (Nat.lt_succ_of_le fits)

/-- The field is in the payload at its offset, behind its own length. -/
def VariableField.IsIn (field : VariableField) (payload : List UInt8) : Prop :=
  ∃ before lenField after, payload = before ++ (lenField ++ field.bytes) ++ after ∧
    before.length = field.offset ∧ Announces lenField field.bytes

theorem isIn_payloadOf {msg : Message} (fits : Fits msg) :
    ∀ field ∈ variableField msg, field.IsIn (payloadOf msg) := by
  intro field isField
  have announced : Announces (toLe 2 field.bytes.length) field.bytes := by
    apply announces_toLe
    have notOver := fits_iff_not_oversized.mp fits
    by_contra long
    refine notOver ⟨field, isField, ?_⟩
    cases msg <;> cases isField <;> simp only [maxPayloadLen] at long ⊢ <;> omega
  cases msg
  case hello protoVersion peerName =>
    cases isField
    exact ⟨toLe 2 protoVersion.toNat, _, [], (List.append_nil _).symm, length_toLe 2 _,
      announced⟩
  case clipboardText chunkFlags bytes =>
    cases isField
    exact ⟨[chunkFlags], _, [], (List.append_nil _).symm, rfl, announced⟩
  case pairSpakeA bytes | pairSpakeB bytes =>
    cases isField
    exact ⟨[], _, [], (List.append_nil _).symm, rfl, announced⟩
  case pairCertExchange certDer hmac =>
    cases isField
    exact ⟨[], _, hmac.toList, rfl, rfl, announced⟩
  all_goals cases isField

/-- The frame is the type byte of the message, the length of the payload, and the
payload, in which every variable field comes behind its own length. -/
def SelfDescribing (msg : Message) (frame : List UInt8) : Prop :=
  ∃ lenField, frame = msgTypeOf msg :: (lenField ++ payloadOf msg) ∧
    Announces lenField (payloadOf msg) ∧
      ∀ field ∈ variableField msg, field.IsIn (payloadOf msg)

theorem selfDescribing_frameOf {msg : Message} (fits : Fits msg) :
    SelfDescribing msg (frameOf msg) := by
  have payloadFits : (payloadOf msg).length ≤ maxPayloadLen :=
    Nat.le_trans (Nat.le_of_eq (length_payloadOf msg)) fits
  refine ⟨toLe 2 (payloadOf msg).length, ?_, announces_toLe payloadFits, isIn_payloadOf fits⟩
  rw [length_payloadOf, frameOf]

/-- `encode_frame` refuses exactly the messages whose payload would be too long, and
leaves the buffer alone then.  Any other message is appended as one frame that
describes itself. -/
theorem encodeFrame_appends_frame_or_nothing (msg : Message) (buf : List UInt8) :
    ((∃ len max, (runEncoder (encodeFrame msg) buf).1 = .error (.payloadTooLong len max)) ↔
        maxPayloadLen < (payloadOf msg).length) ∧
      (maxPayloadLen < (payloadOf msg).length ↔ Oversized msg) ∧
      (Oversized msg → (runEncoder (encodeFrame msg) buf).2 = buf) ∧
      (¬ Oversized msg → (runEncoder (encodeFrame msg) buf).1 = .ok () ∧
        ∃ frame, (runEncoder (encodeFrame msg) buf).2 = buf ++ frame ∧
          SelfDescribing msg frame) := by
  rw [← oversized_iff]
  by_cases oversized : Oversized msg
  · have notFits : ¬ Fits msg := fun fits => fits_iff_not_oversized.mp fits oversized
    rw [encodeFrame_of_not_fits notFits]
    refine ⟨iff_of_true ⟨_, _, rfl⟩ oversized, Iff.rfl, fun _ => rfl, fun small => ?_⟩
    exact absurd oversized small
  · have fits : Fits msg := fits_iff_not_oversized.mpr oversized
    rw [encodeFrame_of_fits fits]
    refine ⟨iff_of_false ?_ oversized, Iff.rfl, fun isOver => absurd isOver oversized, fun _ => ?_⟩
    · rintro ⟨len, max, ⟨⟩⟩
    · exact ⟨rfl, frameOf msg, rfl, selfDescribing_frameOf fits⟩

end Kmwarp.Wire
