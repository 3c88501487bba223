import Kmwarp.Core.Wire.Codec
import Mathlib.Data.List.Basic

/-!
# The encoder and the decoder agree

`msgTypeOf` and `payloadOf` state the layout of each variant once.  The
encoder writes exactly that frame or nothing, and the decoder reads every
message back from its layout, whatever bytes follow.
-/

namespace Kmwarp.Wire

open Foundation

def msgTypeOf : Message → UInt8
  | .hello .. => MsgType.hello
  | .helloAck .. => MsgType.helloAck
  | .mouseMoveRel .. => MsgType.mouseMoveRel
  | .mouseButton .. => MsgType.mouseButton
  | .mouseWheel .. => MsgType.mouseWheel
  | .keyEvent .. => MsgType.keyEvent
  | .clipboardText .. => MsgType.clipboardText
  | .takeControl .. => MsgType.takeControl
  | .releaseControl .. => MsgType.releaseControl
  | .heartbeat .. => MsgType.heartbeat
  | .bye .. => MsgType.bye
  | .echoPing .. => MsgType.echoPing
  | .echoPong .. => MsgType.echoPong
  | .pairSpakeA .. => MsgType.pairSpakeA
  | .pairSpakeB .. => MsgType.pairSpakeB
  | .pairCertExchange .. => MsgType.pairCertExchange
  | .pairAccepted => MsgType.pairAccepted
  | .pairRejected .. => MsgType.pairRejected

/-- A field preceded by its `u16` length. -/
def lengthPrefixed (bytes : List UInt8) : List UInt8 :=
  toLe 2 bytes.length ++ bytes

def payloadOf : Message → List UInt8
  | .hello protoVersion peerName =>
      toLe 2 protoVersion.toNat ++ lengthPrefixed (asBytes peerName)
  | .helloAck accepted serverScreenPx =>
      (if accepted then 1 else 0) ::
        (toLe 2 serverScreenPx.1.toNat ++ toLe 2 serverScreenPx.2.toNat)
  | .mouseMoveRel dx dy => toLe 2 dx.toUInt16.toNat ++ toLe 2 dy.toUInt16.toNat
  | .mouseButton button state => [button, state]
  | .mouseWheel dx dy => toLe 2 dx.toUInt16.toNat ++ toLe 2 dy.toUInt16.toNat
  | .keyEvent hidUsage state modifiers => toLe 2 hidUsage.toNat ++ [state, modifiers]
  | .clipboardText chunkFlags bytes => chunkFlags :: lengthPrefixed bytes
  | .takeControl entryY => toLe 2 entryY.toNat
  | .releaseControl exitY => toLe 2 exitY.toNat
  | .heartbeat seq => toLe 4 seq.toNat
  | .bye reasonCode => [reasonCode]
  | .echoPing tsNs => toLe 8 tsNs.toNat
  | .echoPong tsNs => toLe 8 tsNs.toNat
  | .pairSpakeA msg => lengthPrefixed msg
  | .pairSpakeB msg => lengthPrefixed msg
  | .pairCertExchange certDer hmac => lengthPrefixed certDer ++ hmac.toList
  | .pairAccepted => []
  | .pairRejected reasonCode => [reasonCode]

/-- The payload length each variant announces. -/
def payloadLenOf : Message → Nat
  | .hello _ peerName => 4 + (asBytes peerName).length
  | .helloAck .. => 5
  | .mouseMoveRel .. | .mouseWheel .. | .keyEvent .. | .heartbeat .. => 4
  | .mouseButton .. | .takeControl .. | .releaseControl .. => 2
  | .clipboardText _ bytes => 3 + bytes.length
  | .bye .. | .pairRejected .. => 1
  | .echoPing .. | .echoPong .. => 8
  | .pairSpakeA msg | .pairSpakeB msg => 2 + msg.length
  | .pairCertExchange certDer _ => 2 + certDer.length + 32
  | .pairAccepted => 0

theorem length_payloadOf (msg : Message) :
    (payloadOf msg).length = payloadLenOf msg := by
  cases msg <;> simp [payloadOf, payloadLenOf, lengthPrefixed] <;> omega

/-- The whole frame: type byte, payload length, payload. -/
def frameOf (msg : Message) : List UInt8 :=
  msgTypeOf msg :: (toLe 2 (payloadLenOf msg) ++ payloadOf msg)

/-- The payload length fits the `u16` header field. -/
def Fits (msg : Message) : Prop :=
  payloadLenOf msg ≤ maxPayloadLen

instance (msg : Message) : Decidable (Fits msg) :=
  inferInstanceAs (Decidable (_ ≤ _))

/-! ## Running the encoder -/

/-- The encoder's result and the buffer afterwards. -/
def runEncoder {α : Type} (encoder : Encoder α) (buf : List UInt8) :
    Except WireError α × List UInt8 :=
  encoder.run.run buf

theorem runEncoder_bind {α β : Type} (first : Encoder α)
    (second : α → Encoder β) (buf : List UInt8) :
    runEncoder (first >>= second) buf =
      match runEncoder first buf with
      | (.ok value, rest) => runEncoder (second value) rest
      | (.error error, rest) => (.error error, rest) := by
  simp only [runEncoder, ExceptT.run_bind, StateT.run_bind]
  rcases first.run.run buf with ⟨result, rest⟩
  cases result <;> rfl

@[simp] theorem runEncoder_putSlice (bytes buf : List UInt8) :
    runEncoder (putSlice bytes) buf = (.ok (), buf ++ bytes) := rfl

/-- Both length checks of a variable-length variant pass together when the
payload fits. -/
private theorem runEncoder_checked {α : Type} {payload inner : Nat}
    (fits : payload ≤ maxPayloadLen) (innerLe : inner ≤ payload)
    (body : UInt16 → UInt16 → Encoder α) (buf : List UInt8) :
    runEncoder
        (do
          let payloadLen ← (liftM (checkPayloadLen payload) : Encoder UInt16)
          let innerLen ← (liftM (checkInnerLen inner) : Encoder UInt16)
          body payloadLen innerLen) buf =
      runEncoder (body (UInt16.ofNat payload) (UInt16.ofNat inner)) buf := by
  have innerFits : inner ≤ 65535 := Nat.le_trans innerLe fits
  rw [checkPayloadLen, if_neg (Nat.not_lt.mpr fits), checkInnerLen,
    u16TryFrom, if_pos innerFits]
  rfl

/-- The first length check alone decides, and it fails before anything is
written. -/
private theorem runEncoder_too_long {α : Type} {payload : Nat}
    (long : maxPayloadLen < payload) (body : UInt16 → Encoder α)
    (buf : List UInt8) :
    runEncoder
        (do
          let payloadLen ← (liftM (checkPayloadLen payload) : Encoder UInt16)
          body payloadLen) buf =
      (.error (tooLong payload), buf) := by
  rw [checkPayloadLen, if_pos long]
  rfl

/-- A message whose payload fits is appended as exactly its frame. -/
theorem encodeFrame_of_fits {msg : Message} (fits : Fits msg) (buf : List UInt8) :
    runEncoder (encodeFrame msg) buf = (.ok (), buf ++ frameOf msg) := by
  cases msg
  case hello | clipboardText | pairSpakeA | pairSpakeB | pairCertExchange =>
    simp only [Fits, payloadLenOf] at fits
    rw [encodeFrame, runEncoder_checked fits (by omega)]
    rw [maxPayloadLen] at fits
    simp (disch := omega) [runEncoder_bind, putU8, putU16Le, frameOf, msgTypeOf,
      payloadOf, payloadLenOf, lengthPrefixed, Nat.mod_eq_of_lt]
  all_goals
    simp [encodeFrame, runEncoder_bind, putU8, putU16Le, putI16Le, putU32Le,
      putU64Le, frameOf, msgTypeOf, payloadOf, payloadLenOf]

/-- A payload that does not fit leaves the buffer unchanged. -/
theorem encodeFrame_of_not_fits {msg : Message} (long : ¬ Fits msg)
    (buf : List UInt8) :
    runEncoder (encodeFrame msg) buf = (.error (tooLong (payloadLenOf msg)), buf) := by
  have tooMuch : maxPayloadLen < payloadLenOf msg := Nat.lt_of_not_le long
  cases msg
  case hello | clipboardText | pairSpakeA | pairSpakeB | pairCertExchange =>
    rw [payloadLenOf] at tooMuch ⊢
    rw [encodeFrame, runEncoder_too_long tooMuch]
  all_goals
    simp [payloadLenOf, maxPayloadLen] at tooMuch

/-! ## Running the decoder -/

theorem reader_bind {α β : Type} (first : PayloadReader α)
    (second : α → PayloadReader β) (bytes : List UInt8) :
    (first >>= second) bytes =
      match first bytes with
      | .ok (value, rest) => second value rest
      | .error error => .error error := by
  simp only [bind, StateT.bind, Except.bind]
  cases first bytes <;> rfl

theorem reader_pure {α : Type} (value : α) (bytes : List UInt8) :
    (pure value : PayloadReader α) bytes = .ok (value, bytes) := rfl

theorem reader_map {α β : Type} (f : α → β) (reader : PayloadReader α)
    (bytes : List UInt8) :
    (f <$> reader) bytes =
      match reader bytes with
      | .ok (value, rest) => .ok (f value, rest)
      | .error error => .error error := by
  rw [map_eq_pure_bind, reader_bind]
  rfl

theorem reader_lift {α : Type} (result : Except WireError α) (bytes : List UInt8) :
    (liftM result : PayloadReader α) bytes =
      match result with
      | .ok value => .ok (value, bytes)
      | .error error => .error error := by
  cases result <;> rfl

theorem readBytes_append {n : Nat} {bytes : List UInt8}
    (rest : List UInt8) (length : bytes.length = n) :
    readBytes n (bytes ++ rest) = .ok (bytes, rest) := by
  subst length
  simp [readBytes]

theorem readU8_cons (byte : UInt8) (rest : List UInt8) :
    readU8 (byte :: rest) = .ok (byte, rest) := rfl

/-- Reading a fixed-width integer undoes writing it. -/
private theorem readBytes_toLe (width : Nat) {value : Nat}
    (fits : value < 256 ^ width) (rest : List UInt8) :
    ∃ bytes, readBytes width (toLe width value ++ rest) = .ok (bytes, rest) ∧
      ofLe bytes = value :=
  ⟨toLe width value, readBytes_append rest (length_toLe width value),
    ofLe_toLe_of_lt fits⟩

theorem readU16Le_append (value : UInt16) (rest : List UInt8) :
    readU16Le (toLe 2 value.toNat ++ rest) = .ok (value, rest) := by
  obtain ⟨bytes, read, decoded⟩ := readBytes_toLe 2 value.toNat_lt rest
  simp [readU16Le, reader_bind, reader_pure, read, decoded]

theorem readI16Le_append (value : Int16) (rest : List UInt8) :
    readI16Le (toLe 2 value.toUInt16.toNat ++ rest) = .ok (value, rest) := by
  obtain ⟨bytes, read, decoded⟩ :=
    readBytes_toLe 2 value.toUInt16.toNat_lt rest
  simp only [readI16Le, reader_bind, reader_pure, read, decoded,
    UInt16.ofNat_toNat, Int16.toInt16_toUInt16]

theorem readU32Le_append (value : UInt32) (rest : List UInt8) :
    readU32Le (toLe 4 value.toNat ++ rest) = .ok (value, rest) := by
  obtain ⟨bytes, read, decoded⟩ := readBytes_toLe 4 value.toNat_lt rest
  simp [readU32Le, reader_bind, reader_pure, read, decoded]

theorem readU64Le_append (value : UInt64) (rest : List UInt8) :
    readU64Le (toLe 8 value.toNat ++ rest) = .ok (value, rest) := by
  obtain ⟨bytes, read, decoded⟩ := readBytes_toLe 8 value.toNat_lt rest
  simp [readU64Le, reader_bind, reader_pure, read, decoded]

/-- A length-prefixed field is read back by its announced length. -/
theorem readU16Le_lengthPrefixed (bytes : List UInt8) (fits : bytes.length < 65536)
    (rest : List UInt8) :
    readU16Le (lengthPrefixed bytes ++ rest) =
        .ok (UInt16.ofNat bytes.length, bytes ++ rest) ∧
      (UInt16.ofNat bytes.length).toNat = bytes.length := by
  have len : (UInt16.ofNat bytes.length).toNat = bytes.length :=
    Nat.mod_eq_of_lt fits
  have read := readU16Le_append (UInt16.ofNat bytes.length) (bytes ++ rest)
  rw [len] at read
  exact ⟨by rw [lengthPrefixed, List.append_assoc, read], len⟩

theorem fromUTF8?_asBytes (text : String) :
    String.fromUTF8? ⟨(asBytes text).toArray⟩ = some text := by
  have valid : text.toByteArray.IsValidUTF8 := text.isValidUTF8
  simp [asBytes, String.fromUTF8?, valid, String.fromUTF8]

theorem fromUtf8_asBytes (text : String) :
    fromUtf8 (asBytes text) = .ok text := by
  rw [fromUtf8, fromUTF8?_asBytes]

theorem toList_toBytes32 {bytes : List UInt8} (length : bytes.length = 32) :
    (toBytes32 bytes).toList = bytes := by
  apply List.ext_getElem
  · rw [Vector.length_toList, length]
  · intro index inVector inBytes
    simp [toBytes32, List.getElem?_eq_getElem inBytes]

theorem toBytes32_toList (bytes : Bytes32) :
    toBytes32 bytes.toList = bytes := by
  ext index bound
  simp [toBytes32]

attribute [local simp] MsgType.hello MsgType.helloAck MsgType.mouseMoveRel
  MsgType.mouseButton MsgType.mouseWheel MsgType.keyEvent MsgType.clipboardText
  MsgType.takeControl MsgType.releaseControl MsgType.heartbeat MsgType.bye
  MsgType.echoPing MsgType.echoPong MsgType.pairSpakeA MsgType.pairSpakeB
  MsgType.pairCertExchange MsgType.pairAccepted MsgType.pairRejected

/-- The decoder reads every message back from its layout and leaves whatever
follows it unread. -/
theorem decodePayload_payloadOf {msg : Message} (fits : Fits msg)
    (rest : List UInt8) :
    decodePayload (msgTypeOf msg) (payloadOf msg ++ rest) = .ok (msg, rest) := by
  simp only [Fits, maxPayloadLen] at fits
  cases msg
  case hello protoVersion peerName =>
    rw [payloadLenOf] at fits
    obtain ⟨prefixRead, len⟩ :=
      readU16Le_lengthPrefixed (asBytes peerName) (by omega) rest
    simp [decodePayload, msgTypeOf, payloadOf, reader_bind, reader_map, reader_lift,
      readU16Le_append, prefixRead, len,
      readBytes_append rest rfl, fromUtf8_asBytes]
  case clipboardText chunkFlags bytes | pairSpakeA bytes | pairSpakeB bytes =>
    rw [payloadLenOf] at fits
    obtain ⟨prefixRead, len⟩ :=
      readU16Le_lengthPrefixed bytes (by omega) rest
    simp [decodePayload, msgTypeOf, payloadOf, reader_bind, reader_map, readU8_cons,
      prefixRead, len, readBytes_append rest rfl]
  case pairCertExchange certDer hmac =>
    rw [payloadLenOf] at fits
    obtain ⟨prefixRead, len⟩ :=
      readU16Le_lengthPrefixed certDer (by omega) (hmac.toList ++ rest)
    simp [decodePayload, msgTypeOf, payloadOf, reader_bind, reader_map,
      prefixRead, len, readBytes_append (hmac.toList ++ rest) rfl,
      readBytes_append rest hmac.length_toList, toBytes32_toList]
  case helloAck accepted serverScreenPx =>
    cases accepted <;>
      simp [decodePayload, msgTypeOf, payloadOf, reader_bind, reader_map, readU8_cons,
        readU16Le_append]
  all_goals
    simp [decodePayload, msgTypeOf, payloadOf, reader_bind, reader_map, reader_pure,
      readU8_cons, readU16Le_append, readI16Le_append, readU32Le_append,
      readU64Le_append]

end Kmwarp.Wire
