import Kmwarp.Core.Wire.RoundTrip
import Kmwarp.Foundation.StreamDecoder

/-!
# Frames in a byte stream

A complete frame is a type byte, a length, and that many payload bytes.  The
reference parse of a stream is stated over complete frames alone; the frame
decoder is an incremental decoder for it.
-/

namespace Kmwarp.Wire

open Foundation

/-- A complete frame.  The header can announce the payload. -/
structure Frame where
  msgType : UInt8
  payload : List UInt8
  announced : payload.length ≤ maxPayloadLen

namespace Frame

def bytes (frame : Frame) : List UInt8 :=
  frame.msgType :: (toLe 2 frame.payload.length ++ frame.payload)

/-- What a frame says, or why it is invalid. -/
def parse (frame : Frame) : Except WireError Message :=
  match decodePayload frame.msgType frame.payload with
  | .ok (msg, _) => .ok msg
  | .error error => .error error

theorem length_lt_length_bytes_append (frame : Frame) (rest : List UInt8) :
    rest.length < (frame.bytes ++ rest).length := by
  simp only [bytes, List.cons_append, List.length_cons, List.length_append]
  omega

/-- The frame of a message whose payload fits. -/
def ofMessage {msg : Message} (fits : Fits msg) : Frame where
  msgType := msgTypeOf msg
  payload := payloadOf msg
  announced := by rw [length_payloadOf]; exact fits

theorem bytes_ofMessage {msg : Message} (fits : Fits msg) :
    (ofMessage fits).bytes = frameOf msg := by
  simp only [bytes, ofMessage, frameOf, length_payloadOf]

theorem parse_ofMessage {msg : Message} (fits : Fits msg) :
    (ofMessage fits).parse = .ok msg := by
  have decoded := decodePayload_payloadOf fits []
  rw [List.append_nil] at decoded
  simp only [parse, ofMessage, decoded]

end Frame

/-! ## What the decoder does on a buffer -/

/-- A buffer that starts with a complete frame is decided by that frame. -/
theorem decodeFrame_frame (frame : Frame) (rest : List UInt8) :
    decodeFrame (frame.bytes ++ rest) =
      match frame.parse with
      | .ok msg => (.ok (some msg), rest)
      | .error error => (.error error, frame.bytes ++ rest) := by
  have small : frame.payload.length < 256 ^ 2 :=
    Nat.lt_of_le_of_lt frame.announced (by decide)
  have announced : ofLe (toLe 2 frame.payload.length) = frame.payload.length :=
    ofLe_toLe_of_lt small
  obtain ⟨lenLow, lenHigh, header⟩ :
      ∃ lenLow lenHigh, toLe 2 frame.payload.length = [lenLow, lenHigh] :=
    List.length_eq_two.mp (length_toLe 2 frame.payload.length)
  rw [header] at announced
  have enough : ¬ (frame.payload ++ rest).length < frame.payload.length := by
    simp
  simp only [Frame.bytes, Frame.parse, header, List.cons_append, List.nil_append,
    decodeFrame, announced, if_neg enough, List.take_left, List.drop_left]
  cases decodePayload frame.msgType frame.payload <;> rfl

/-- Either a buffer starts with a complete frame, or the decoder asks for more
and keeps it. -/
theorem decodeFrame_cases (buf : List UInt8) :
    (∃ (frame : Frame) (rest : List UInt8), buf = frame.bytes ++ rest) ∨
      ((∀ (frame : Frame) (rest : List UInt8), buf ≠ frame.bytes ++ rest) ∧
        decodeFrame buf = (.ok none, buf)) := by
  by_cases complete : ∃ (frame : Frame) (rest : List UInt8), buf = frame.bytes ++ rest
  · exact .inl complete
  refine .inr ⟨fun frame rest same => complete ⟨frame, rest, same⟩, ?_⟩
  match buf with
  | [] | [_] | [_, _] => rfl
  | msgType :: lenLow :: lenHigh :: body =>
      by_cases short : body.length < ofLe [lenLow, lenHigh]
      · simp only [decodeFrame, if_pos short]
      · have bound : ofLe [lenLow, lenHigh] < 256 ^ 2 := ofLe_lt [lenLow, lenHigh]
        have length : (body.take (ofLe [lenLow, lenHigh])).length =
            ofLe [lenLow, lenHigh] :=
          List.length_take_of_le (Nat.le_of_not_lt short)
        have header : toLe 2 (ofLe [lenLow, lenHigh]) = [lenLow, lenHigh] :=
          toLe_ofLe [lenLow, lenHigh]
        refine absurd ⟨⟨msgType, body.take (ofLe [lenLow, lenHigh]), ?_⟩,
          body.drop (ofLe [lenLow, lenHigh]), ?_⟩ complete
        · rw [length]
          exact Nat.le_of_lt_succ bound
        · simp only [Frame.bytes, length, header, List.cons_append, List.nil_append,
            List.take_append_drop]

/-- The frame decoder as an incremental decoder. -/
def frameDecoder : StreamDecoder UInt8 WireError Message where
  decode := decodeFrame
  incomplete_keeps := by
    intro buf rest decoded
    rcases decodeFrame_cases buf with ⟨frame, behind, rfl⟩ | ⟨_, incomplete⟩
    · rw [decodeFrame_frame] at decoded
      cases parsed : frame.parse <;> simp [parsed] at decoded
    · rw [incomplete] at decoded
      cases decoded
      rfl
  item_shortens := by
    intro buf rest msg decoded
    rcases decodeFrame_cases buf with ⟨frame, behind, rfl⟩ | ⟨_, incomplete⟩
    · rw [decodeFrame_frame] at decoded
      cases parsed : frame.parse with
      | error error => simp [parsed] at decoded
      | ok msg =>
          simp only [parsed, Prod.mk.injEq] at decoded
          rw [← decoded.2]
          exact frame.length_lt_length_bytes_append behind
    · rw [incomplete] at decoded
      cases decoded
  item_append := by
    intro buf rest msg more decoded
    rcases decodeFrame_cases buf with ⟨frame, behind, rfl⟩ | ⟨_, incomplete⟩
    · rw [decodeFrame_frame] at decoded
      rw [List.append_assoc, decodeFrame_frame]
      cases parsed : frame.parse with
      | error error => simp [parsed] at decoded
      | ok msg =>
          simp only [parsed, Prod.mk.injEq] at decoded
          simp only [decoded.1, decoded.2]
    · rw [incomplete] at decoded
      cases decoded
  error_append := by
    intro buf rest error more decoded
    rcases decodeFrame_cases buf with ⟨frame, behind, rfl⟩ | ⟨_, incomplete⟩
    · rw [decodeFrame_frame] at decoded
      rw [List.append_assoc, decodeFrame_frame]
      cases parsed : frame.parse with
      | ok msg => simp [parsed] at decoded
      | error error =>
          simp only [parsed, Prod.mk.injEq] at decoded
          exact ⟨decoded.2.symm, by simp only [decoded.1]⟩
    · rw [incomplete] at decoded
      cases decoded

/-! ## The reference parse -/

/-- The messages of the maximal prefix of complete valid frames, and whether
an invalid complete frame or an incomplete one stands behind it. -/
inductive ReferenceParse : List UInt8 → List Message → Ending WireError → Prop where
  | valid {frame : Frame} {rest : List UInt8} {msg : Message}
      {msgs : List Message} {ending : Ending WireError}
      (parsed : frame.parse = .ok msg) (tail : ReferenceParse rest msgs ending) :
      ReferenceParse (frame.bytes ++ rest) (msg :: msgs) ending
  | invalid {frame : Frame} {rest : List UInt8} {error : WireError}
      (parsed : frame.parse = .error error) :
      ReferenceParse (frame.bytes ++ rest) [] (.failed error)
  | incomplete {stream : List UInt8}
      (noFrame : ∀ (frame : Frame) (rest : List UInt8), stream ≠ frame.bytes ++ rest) :
      ReferenceParse stream [] .endOfStream

/-- The decoder parses a stream as the reference does. -/
theorem parses_of_referenceParse {stream : List UInt8} {msgs : List Message}
    {ending : Ending WireError} (reference : ReferenceParse stream msgs ending) :
    frameDecoder.Parses stream msgs ending := by
  induction reference with
  | @valid frame rest msg _ _ parsed _ ih =>
      have decoded : decodeFrame (frame.bytes ++ rest) = (.ok (some msg), rest) := by
        rw [decodeFrame_frame, parsed]
      exact .item decoded ih
  | @invalid frame rest error parsed =>
      have decoded : decodeFrame (frame.bytes ++ rest) =
          (.error error, frame.bytes ++ rest) := by
        rw [decodeFrame_frame, parsed]
      exact .failed decoded
  | @incomplete stream noFrame =>
      rcases decodeFrame_cases stream with ⟨frame, rest, same⟩ | ⟨_, incomplete⟩
      · exact absurd same (noFrame frame rest)
      · exact .incomplete incomplete

/-- Every stream has a reference parse. -/
theorem exists_referenceParse (stream : List UInt8) :
    ∃ msgs ending, ReferenceParse stream msgs ending := by
  rcases decodeFrame_cases stream with ⟨frame, rest, rfl⟩ | ⟨noFrame, _⟩
  · cases parsed : frame.parse with
    | error error => exact ⟨[], _, .invalid parsed⟩
    | ok msg =>
        have shorter := frame.length_lt_length_bytes_append rest
        obtain ⟨msgs, ending, tail⟩ := exists_referenceParse rest
        exact ⟨msg :: msgs, ending, .valid parsed tail⟩
  · exact ⟨[], _, .incomplete noFrame⟩
termination_by stream.length

theorem ReferenceParse.unique {stream : List UInt8} {msgs otherMsgs : List Message}
    {ending otherEnding : Ending WireError}
    (first : ReferenceParse stream msgs ending)
    (second : ReferenceParse stream otherMsgs otherEnding) :
    otherMsgs = msgs ∧ otherEnding = ending :=
  (parses_of_referenceParse first).unique (parses_of_referenceParse second)

/-- Concatenated encodings, or nothing when the encoder refuses a message. -/
def encodeFrames : List Message → Option (List UInt8)
  | [] => some []
  | msg :: msgs =>
      match runEncoder (encodeFrame msg) [] with
      | (.ok (), frame) => (encodeFrames msgs).map fun rest => frame ++ rest
      | (.error _, _) => none

/-- Concatenated encodings parse to exactly the encoded messages. -/
theorem referenceParse_encodeFrames {msgs : List Message} {stream : List UInt8}
    (encoded : encodeFrames msgs = some stream) :
    ReferenceParse stream msgs .endOfStream := by
  induction msgs generalizing stream with
  | nil =>
      cases encoded
      exact .incomplete fun frame rest same => by simp [Frame.bytes] at same
  | cons msg msgs ih =>
      by_cases fits : Fits msg
      · rw [encodeFrames, encodeFrame_of_fits fits] at encoded
        obtain ⟨rest, encodedRest, rfl⟩ := Option.map_eq_some_iff.mp encoded
        rw [List.nil_append, ← Frame.bytes_ofMessage fits]
        exact .valid (Frame.parse_ofMessage fits) (ih encodedRest)
      · rw [encodeFrames, encodeFrame_of_not_fits fits] at encoded
        cases encoded

end Kmwarp.Wire
