import Kmwarp.Core.Wire.Framing

/-!
# The language the frame decoder accepts

Each reader is characterized by what it writes back: a field is read exactly
from its encoding.  Composing these gives the payload language of every
variant, and with it the set of buffers on which the decoder returns a message.
-/

namespace Kmwarp.Wire

open Foundation

/-! ## What each reader accepts -/

theorem reader_bind_eq_ok {α β : Type} {first : PayloadReader α}
    {second : α → PayloadReader β} {bytes rest : List UInt8} {value : β} :
    (first >>= second) bytes = .ok (value, rest) ↔
      ∃ middle between, first bytes = .ok (middle, between) ∧
        second middle between = .ok (value, rest) := by
  rw [reader_bind]
  constructor
  · intro read
    cases firstRead : first bytes with
    | error error => simp [firstRead] at read
    | ok result =>
        rw [firstRead] at read
        exact ⟨result.1, result.2, rfl, read⟩
  · rintro ⟨middle, between, firstRead, secondRead⟩
    rw [firstRead]
    exact secondRead

theorem reader_pure_eq_ok {α : Type} {value result : α} {bytes rest : List UInt8} :
    (pure value : PayloadReader α) bytes = .ok (result, rest) ↔
      value = result ∧ bytes = rest := by
  rw [reader_pure]
  simp

theorem readBytes_eq_ok {n : Nat} {bytes value rest : List UInt8} :
    readBytes n bytes = .ok (value, rest) ↔
      value.length = n ∧ bytes = value ++ rest := by
  constructor
  · intro read
    rw [readBytes] at read
    split at read
    · rename_i enough
      cases read
      exact ⟨List.length_take_of_le enough, (List.take_append_drop n bytes).symm⟩
    · cases read
  · rintro ⟨length, rfl⟩
    exact readBytes_append rest length

theorem readU8_eq_ok {bytes rest : List UInt8} {value : UInt8} :
    readU8 bytes = .ok (value, rest) ↔ bytes = value :: rest := by
  cases bytes <;> simp [readU8]

/-- A fixed-width field is the little-endian bytes of a number in its range. -/
private theorem exists_toLe_of_read {α : Type} {width : Nat} {ofNat : Nat → α}
    {bytes rest : List UInt8} {value : α}
    (read : (do return ofNat (ofLe (← readBytes width)) : PayloadReader α) bytes =
      .ok (value, rest)) :
    ∃ number < 256 ^ width, value = ofNat number ∧ bytes = toLe width number ++ rest := by
  obtain ⟨digits, between, readDigits, last⟩ := reader_bind_eq_ok.mp read
  obtain ⟨rfl, rfl⟩ := reader_pure_eq_ok.mp last
  obtain ⟨length, split⟩ := readBytes_eq_ok.mp readDigits
  subst length
  exact ⟨ofLe digits, ofLe_lt digits, rfl, by rw [toLe_ofLe, split]⟩

theorem readU16Le_eq_ok {bytes rest : List UInt8} {value : UInt16} :
    readU16Le bytes = .ok (value, rest) ↔ bytes = toLe 2 value.toNat ++ rest := by
  constructor
  · intro read
    obtain ⟨number, bound, rfl, split⟩ := exists_toLe_of_read read
    rw [split, UInt16.toNat_ofNat_of_lt' bound]
  · rintro rfl
    exact readU16Le_append value rest

theorem readI16Le_eq_ok {bytes rest : List UInt8} {value : Int16} :
    readI16Le bytes = .ok (value, rest) ↔
      bytes = toLe 2 value.toUInt16.toNat ++ rest := by
  constructor
  · intro read
    let ofNat : Nat → Int16 := fun number => (UInt16.ofNat number).toInt16
    obtain ⟨number, bound, rfl, split⟩ :=
      @exists_toLe_of_read _ _ ofNat bytes rest value read
    rw [split, UInt16.toUInt16_toInt16, UInt16.toNat_ofNat_of_lt' bound]
  · rintro rfl
    exact readI16Le_append value rest

theorem readU32Le_eq_ok {bytes rest : List UInt8} {value : UInt32} :
    readU32Le bytes = .ok (value, rest) ↔ bytes = toLe 4 value.toNat ++ rest := by
  constructor
  · intro read
    obtain ⟨number, bound, rfl, split⟩ := exists_toLe_of_read read
    rw [split, UInt32.toNat_ofNat_of_lt' bound]
  · rintro rfl
    exact readU32Le_append value rest

theorem readU64Le_eq_ok {bytes rest : List UInt8} {value : UInt64} :
    readU64Le bytes = .ok (value, rest) ↔ bytes = toLe 8 value.toNat ++ rest := by
  constructor
  · intro read
    obtain ⟨number, bound, rfl, split⟩ := exists_toLe_of_read read
    rw [split, UInt64.toNat_ofNat_of_lt' bound]
  · rintro rfl
    exact readU64Le_append value rest

/-- A length field and as many bytes are one length-prefixed field. -/
theorem lengthPrefixed_of_read {bytes between value rest : List UInt8} {len : UInt16}
    (readLen : readU16Le bytes = .ok (len, between))
    (readValue : readBytes len.toNat between = .ok (value, rest)) :
    bytes = lengthPrefixed value ++ rest := by
  obtain ⟨length, rfl⟩ := readBytes_eq_ok.mp readValue
  rw [readU16Le_eq_ok.mp readLen, ← length, lengthPrefixed, List.append_assoc]

theorem asBytes_of_fromUtf8 {bytes : List UInt8} {text : String}
    (decoded : fromUtf8 bytes = .ok text) : asBytes text = bytes := by
  rw [fromUtf8, String.fromUTF8?] at decoded
  split at decoded
  · rename_i found
    cases decoded
    split at found
    · cases found
      rfl
    · cases found
  · cases decoded

/-! ## What a payload says -/

private theorem reader_ite_eq_ok {α : Type} {condition : Prop} [Decidable condition]
    {yes no : PayloadReader α} {bytes rest : List UInt8} {value : α} :
    (if condition then yes else no) bytes = .ok (value, rest) ↔
      condition ∧ yes bytes = .ok (value, rest) ∨
        ¬ condition ∧ no bytes = .ok (value, rest) := by
  by_cases holds : condition <;> simp [holds]

private theorem reader_lift_eq_ok {α : Type} {result : Except WireError α}
    {bytes rest : List UInt8} {value : α} :
    (liftM result : PayloadReader α) bytes = .ok (value, rest) ↔
      result = .ok value ∧ bytes = rest := by
  rw [reader_lift]
  cases result <;> simp

/-- A decoded payload is the encoded payload of the message and whatever was
left unread, under the type byte of the message. -/
theorem payloadOf_of_decodePayload {msgType : UInt8} {bytes rest : List UInt8}
    {msg : Message} (decoded : decodePayload msgType bytes = .ok (msg, rest)) :
    msgType = msgTypeOf msg ∧ bytes = payloadOf msg ++ rest := by
  rw [decodePayload] at decoded
  simp only [reader_ite_eq_ok, reader_bind_eq_ok, reader_pure_eq_ok] at decoded
  rcases decoded with ⟨rfl, hello⟩ | ⟨_, ⟨rfl, helloAck⟩ | ⟨_, ⟨rfl, mouseRel⟩ |
    ⟨_, ⟨rfl, mouseButton⟩ | ⟨_, ⟨rfl, mouseWheel⟩ | ⟨_, ⟨rfl, key⟩ |
    ⟨_, ⟨rfl, clipboard⟩ | ⟨_, ⟨rfl, takeControl⟩ | ⟨_, ⟨rfl, releaseControl⟩ |
    ⟨_, ⟨rfl, heartbeat⟩ | ⟨_, ⟨rfl, bye⟩ | ⟨_, ⟨rfl, ping⟩ | ⟨_, ⟨rfl, pong⟩ |
    ⟨_, ⟨rfl, spakeA⟩ | ⟨_, ⟨rfl, spakeB⟩ | ⟨_, ⟨rfl, cert⟩ | ⟨_, ⟨rfl, accepted⟩ |
    ⟨_, ⟨rfl, rejected⟩ | ⟨_, unknown⟩⟩⟩⟩⟩⟩⟩⟩⟩⟩⟩⟩⟩⟩⟩⟩⟩⟩
  · obtain ⟨version, afterVersion, readVersion, nameLen, afterLen, readLen,
      nameBytes, afterName, readName, peerName, _, decodedName, rfl, rfl⟩ := hello
    obtain ⟨utf8, rfl⟩ := reader_lift_eq_ok.mp decodedName
    have nameField := lengthPrefixed_of_read readLen readName
    rw [readU16Le_eq_ok.mp readVersion, nameField, ← asBytes_of_fromUtf8 utf8]
    exact ⟨rfl, by simp [payloadOf]⟩
  · obtain ⟨flagByte, _, readFlag, ⟨rfl, screen⟩ | ⟨_, ⟨rfl, screen⟩ | ⟨_, refused⟩⟩⟩ :=
      helloAck
    · obtain ⟨_, _, ⟨rfl, rfl⟩, width, _, readWidth, height, _, readHeight, rfl, rfl⟩ :=
        screen
      rw [readU8_eq_ok.mp readFlag, readU16Le_eq_ok.mp readWidth,
        readU16Le_eq_ok.mp readHeight]
      exact ⟨rfl, by simp [payloadOf]⟩
    · obtain ⟨_, _, ⟨rfl, rfl⟩, width, _, readWidth, height, _, readHeight, rfl, rfl⟩ :=
        screen
      rw [readU8_eq_ok.mp readFlag, readU16Le_eq_ok.mp readWidth,
        readU16Le_eq_ok.mp readHeight]
      exact ⟨rfl, by simp [payloadOf]⟩
    · -- Any other byte is an invalid payload.
      obtain ⟨_, _, thrown, _⟩ := refused
      cases thrown
  · obtain ⟨dx, _, readDx, dy, _, readDy, rfl, rfl⟩ := mouseRel
    rw [readI16Le_eq_ok.mp readDx, readI16Le_eq_ok.mp readDy]
    exact ⟨rfl, by simp [payloadOf]⟩
  · obtain ⟨button, _, readButton, state, _, readState, rfl, rfl⟩ := mouseButton
    rw [readU8_eq_ok.mp readButton, readU8_eq_ok.mp readState]
    exact ⟨rfl, rfl⟩
  · obtain ⟨dx, _, readDx, dy, _, readDy, rfl, rfl⟩ := mouseWheel
    rw [readI16Le_eq_ok.mp readDx, readI16Le_eq_ok.mp readDy]
    exact ⟨rfl, by simp [payloadOf]⟩
  · obtain ⟨usage, _, readUsage, state, _, readState, mods, _, readMods, rfl, rfl⟩ :=
      key
    rw [readU16Le_eq_ok.mp readUsage, readU8_eq_ok.mp readState,
      readU8_eq_ok.mp readMods]
    exact ⟨rfl, by simp [payloadOf]⟩
  · obtain ⟨flags, _, readFlags, len, _, readLen, text, _, readText, rfl, rfl⟩ :=
      clipboard
    have textField := lengthPrefixed_of_read readLen readText
    rw [readU8_eq_ok.mp readFlags, textField]
    exact ⟨rfl, rfl⟩
  · obtain ⟨entryY, _, readEntry, rfl, rfl⟩ := takeControl
    exact ⟨rfl, readU16Le_eq_ok.mp readEntry⟩
  · obtain ⟨exitY, _, readExit, rfl, rfl⟩ := releaseControl
    exact ⟨rfl, readU16Le_eq_ok.mp readExit⟩
  · obtain ⟨seq, _, readSeq, rfl, rfl⟩ := heartbeat
    exact ⟨rfl, readU32Le_eq_ok.mp readSeq⟩
  · obtain ⟨reason, _, readReason, rfl, rfl⟩ := bye
    exact ⟨rfl, readU8_eq_ok.mp readReason⟩
  · obtain ⟨ts, _, readTs, rfl, rfl⟩ := ping
    exact ⟨rfl, readU64Le_eq_ok.mp readTs⟩
  · obtain ⟨ts, _, readTs, rfl, rfl⟩ := pong
    exact ⟨rfl, readU64Le_eq_ok.mp readTs⟩
  · obtain ⟨len, _, readLen, share, _, readShare, rfl, rfl⟩ := spakeA
    exact ⟨rfl, lengthPrefixed_of_read readLen readShare⟩
  · obtain ⟨len, _, readLen, share, _, readShare, rfl, rfl⟩ := spakeB
    exact ⟨rfl, lengthPrefixed_of_read readLen readShare⟩
  · obtain ⟨len, _, readLen, certDer, _, readCert, hmacBytes, _, readHmac, rfl, rfl⟩ :=
      cert
    obtain ⟨hmacLength, rfl⟩ := readBytes_eq_ok.mp readHmac
    have certField := lengthPrefixed_of_read readLen readCert
    refine ⟨rfl, ?_⟩
    rw [certField, payloadOf, toList_toBytes32 hmacLength, List.append_assoc]
  · obtain ⟨rfl, rfl⟩ := accepted
    exact ⟨rfl, rfl⟩
  · obtain ⟨reason, _, readReason, rfl, rfl⟩ := rejected
    exact ⟨rfl, readU8_eq_ok.mp readReason⟩
  · cases unknown

/-- A message decoded from a payload that fits a frame fits a frame itself. -/
theorem fits_of_decodePayload {msgType : UInt8} {bytes rest : List UInt8}
    {msg : Message} (decoded : decodePayload msgType bytes = .ok (msg, rest))
    (announced : bytes.length ≤ maxPayloadLen) : Fits msg := by
  obtain ⟨_, rfl⟩ := payloadOf_of_decodePayload decoded
  rw [List.length_append, length_payloadOf] at announced
  exact Nat.le_trans (Nat.le_add_right _ _) announced

/-! ## The grammar of a buffer -/

/-- The little-endian length field behind the type byte. -/
def announcedLen (buf : List UInt8) : Nat :=
  ofLe ((buf.drop 1).take 2)

/-- The header, or the payload it announces, is not all there yet. -/
def Incomplete (buf : List UInt8) : Prop :=
  buf.length < frameHeaderLen ∨ buf.length < frameHeaderLen + announcedLen buf

/-- The payload bytes the header announces. -/
def announcedPayload (buf : List UInt8) : List UInt8 :=
  (buf.drop frameHeaderLen).take (announcedLen buf)

/-- The buffer starts with the message's type byte, and its announced payload
starts with the payload the encoder writes for the message. -/
def Says (buf : List UInt8) (msg : Message) : Prop :=
  ∃ msgType payload trailing,
    runEncoder (encodeFrame msg) [] =
        (.ok (), msgType :: (toLe 2 payload.length ++ payload)) ∧
      buf.head? = some msgType ∧ announcedPayload buf = payload ++ trailing

/-- What the encoder writes for a message is its layout, and nothing else. -/
theorem encodeFrame_eq_frame {msg : Message} {msgType : UInt8} {payload : List UInt8} :
    runEncoder (encodeFrame msg) [] =
        (.ok (), msgType :: (toLe 2 payload.length ++ payload)) ↔
      Fits msg ∧ msgType = msgTypeOf msg ∧ payload = payloadOf msg := by
  constructor
  · intro encoded
    by_cases fits : Fits msg
    · rw [encodeFrame_of_fits fits, frameOf, List.nil_append] at encoded
      obtain ⟨sameType, sameRest⟩ := List.cons.inj (Prod.mk.inj encoded).2
      have sameLength : (toLe 2 (payloadLenOf msg)).length =
          (toLe 2 payload.length).length := by
        rw [length_toLe, length_toLe]
      exact ⟨fits, sameType.symm, (List.append_inj sameRest sameLength).2.symm⟩
    · rw [encodeFrame_of_not_fits fits] at encoded
      cases encoded
  · rintro ⟨fits, rfl, rfl⟩
    rw [encodeFrame_of_fits fits, length_payloadOf, List.nil_append, frameOf]

namespace Frame

theorem announcedLen_bytes_append (frame : Frame) (rest : List UInt8) :
    announcedLen (frame.bytes ++ rest) = frame.payload.length := by
  have field : ((frame.bytes ++ rest).drop 1).take 2 = toLe 2 frame.payload.length := by
    rw [bytes, List.cons_append, List.drop_one, List.tail_cons, List.append_assoc]
    exact List.take_left' (length_toLe 2 _)
  rw [announcedLen, field]
  exact ofLe_toLe_of_lt (Nat.lt_of_le_of_lt frame.announced (by decide))

theorem drop_header_bytes_append (frame : Frame) (rest : List UInt8) :
    (frame.bytes ++ rest).drop frameHeaderLen = frame.payload ++ rest := by
  have header : frameHeaderLen =
      (frame.msgType :: toLe 2 frame.payload.length).length := by
    rw [List.length_cons, length_toLe, frameHeaderLen]
  rw [bytes, header, ← List.cons_append, List.append_assoc, List.drop_left]

theorem announcedPayload_bytes_append (frame : Frame) (rest : List UInt8) :
    announcedPayload (frame.bytes ++ rest) = frame.payload := by
  rw [announcedPayload, announcedLen_bytes_append, drop_header_bytes_append,
    List.take_left]

/-- A complete frame says exactly the message it parses to. -/
theorem says_bytes_append (frame : Frame) (rest : List UInt8) (msg : Message) :
    Says (frame.bytes ++ rest) msg ↔ frame.parse = .ok msg := by
  rw [Says, announcedPayload_bytes_append, parse]
  constructor
  · rintro ⟨msgType, payload, trailing, encoded, sameType, split⟩
    obtain ⟨fits, rfl, rfl⟩ := encodeFrame_eq_frame.mp encoded
    have typeByte : frame.msgType = msgTypeOf msg := Option.some.inj sameType
    rw [typeByte, split, decodePayload_payloadOf fits]
  · intro parsed
    cases decoded : decodePayload frame.msgType frame.payload with
    | error error =>
        rw [decoded] at parsed
        cases parsed
    | ok result =>
        obtain ⟨read, trailing⟩ := result
        rw [decoded] at parsed
        cases parsed
        obtain ⟨sameType, split⟩ := payloadOf_of_decodePayload decoded
        have fits := fits_of_decodePayload decoded frame.announced
        exact ⟨frame.msgType, payloadOf msg, trailing,
          encodeFrame_eq_frame.mpr ⟨fits, sameType, rfl⟩, rfl, split⟩

theorem length_bytes (frame : Frame) :
    frame.bytes.length = frameHeaderLen + frame.payload.length := by
  rw [bytes, List.length_cons, List.length_append, length_toLe, frameHeaderLen]
  omega

theorem not_incomplete_bytes_append (frame : Frame) (rest : List UInt8) :
    ¬ Incomplete (frame.bytes ++ rest) := by
  rw [Incomplete, announcedLen_bytes_append, List.length_append, length_bytes]
  omega

end Frame

/-- A buffer says at most one message. -/
theorem Says.unique {buf : List UInt8} {msg other : Message} (first : Says buf msg)
    (second : Says buf other) : other = msg := by
  obtain ⟨firstType, payload, trailing, encoded, head, split⟩ := first
  obtain ⟨secondType, otherPayload, otherTrailing, otherEncoded, otherHead, otherSplit⟩ :=
    second
  obtain ⟨fits, firstSame, rfl⟩ := encodeFrame_eq_frame.mp encoded
  obtain ⟨otherFits, secondSame, rfl⟩ := encodeFrame_eq_frame.mp otherEncoded
  have sameType : msgTypeOf other = msgTypeOf msg := by
    rw [head] at otherHead
    rw [← firstSame, ← secondSame, Option.some.inj otherHead]
  -- Both are what the decoder reads from the same payload.
  have decoded := decodePayload_payloadOf fits trailing
  have otherDecoded := decodePayload_payloadOf otherFits otherTrailing
  rw [sameType, ← otherSplit, split, decoded] at otherDecoded
  exact (Prod.mk.inj (Except.ok.inj otherDecoded)).1.symm

/-- The decoder asks for more exactly on incomplete buffers. -/
theorem decodeFrame_eq_none {buf : List UInt8} :
    (decodeFrame buf).1 = .ok none ↔ Incomplete buf := by
  constructor
  · intro decoded
    match buf with
    | [] | [_] | [_, _] => exact .inl (by simp [frameHeaderLen])
    | msgType :: lenLow :: lenHigh :: body =>
        right
        by_cases short : body.length < ofLe [lenLow, lenHigh]
        · simp only [announcedLen, frameHeaderLen, List.drop_one, List.tail_cons,
            List.take_succ_cons, List.take_zero, List.length_cons]
          omega
        · rw [decodeFrame, if_neg short] at decoded
          cases read : decodePayload msgType (body.take (ofLe [lenLow, lenHigh])) <;>
            simp [read] at decoded
  · intro incomplete
    rcases decodeFrame_cases buf with ⟨frame, rest, rfl⟩ | ⟨_, none⟩
    · exact absurd incomplete (frame.not_incomplete_bytes_append rest)
    · rw [none]

/-- The decoder accepts exactly its grammar.  It asks for more exactly when
header or payload are incomplete; otherwise it returns the one message whose
encoded payload, with whatever follows it, is the announced payload, consuming
exactly the frame; and it fails on every other buffer.  Only a returned message
changes the buffer, and every returned message can be encoded. -/
theorem decodeFrame_accepts_grammar (buf : List UInt8) :
    ((decodeFrame buf).1 = .ok none ↔ Incomplete buf) ∧
      (Incomplete buf → decodeFrame buf = (.ok none, buf)) ∧
      (∀ msg, (decodeFrame buf).1 = .ok (some msg) ↔ ¬ Incomplete buf ∧ Says buf msg) ∧
      (∀ msg other, Says buf msg → Says buf other → other = msg) ∧
      (∀ msg, (decodeFrame buf).1 = .ok (some msg) →
        ∃ consumed, consumed.length = frameHeaderLen + announcedLen buf ∧
          buf = consumed ++ (decodeFrame buf).2) ∧
      (¬ Incomplete buf → (∀ msg, ¬ Says buf msg) →
        ∃ error, decodeFrame buf = (.error error, buf)) ∧
      (∀ msg, (decodeFrame buf).1 = .ok (some msg) → ∀ out, ∃ appended,
        runEncoder (encodeFrame msg) out = (.ok (), out ++ appended)) := by
  refine ⟨decodeFrame_eq_none, ?_, ?_, fun _ _ => Says.unique, ?_⟩
  · intro incomplete
    rcases decodeFrame_cases buf with ⟨frame, rest, rfl⟩ | ⟨_, none⟩
    · exact absurd incomplete (frame.not_incomplete_bytes_append rest)
    · exact none
  · intro msg
    rcases decodeFrame_cases buf with ⟨frame, rest, rfl⟩ | ⟨_, none⟩
    · have complete := frame.not_incomplete_bytes_append rest
      rw [frame.says_bytes_append, decodeFrame_frame]
      cases parsed : frame.parse <;> simp [complete]
    · have incomplete : Incomplete buf := decodeFrame_eq_none.mp (by rw [none])
      simp [none, incomplete]
  · rcases decodeFrame_cases buf with ⟨frame, rest, rfl⟩ | ⟨_, none⟩
    · simp only [frame.says_bytes_append, decodeFrame_frame,
        frame.announcedLen_bytes_append]
      cases parsed : frame.parse with
      | error error =>
          refine ⟨by simp, fun _ _ => ⟨error, rfl⟩, by simp⟩
      | ok msg =>
          refine ⟨fun _ _ => ⟨frame.bytes, frame.length_bytes, rfl⟩,
            fun _ silent => absurd rfl (silent msg), ?_⟩
          intro returned same out
          cases same
          obtain ⟨_, _, _, encoded, _⟩ :=
            (frame.says_bytes_append rest msg).mpr parsed
          obtain ⟨fits, _⟩ := encodeFrame_eq_frame.mp encoded
          exact ⟨frameOf msg, encodeFrame_of_fits fits out⟩
    · have incomplete : Incomplete buf := decodeFrame_eq_none.mp (by rw [none])
      simp [none, incomplete]

end Kmwarp.Wire
