import Kmwarp.Net.InputPath

/-!
# One direction of the connection in bytes

The writer puts whole frames on the stream and the network delivers it in pieces.  The
reader decodes from its buffer and asks for more bytes only when no frame is complete.
-/

namespace Kmwarp

open Foundation Wire

/-- Bytes that were written and not yet read, and the reader's buffer in front of them. -/
structure ByteLink where
  inFlight : List UInt8
  readBuf : List UInt8

namespace ByteLink

def empty : ByteLink := ⟨[], []⟩

/-- `write_frame`.  A message that is too long ends the session. -/
def writeFrame (link : ByteLink) (msg : Message) : Option ByteLink :=
  match Net.writeFrameFrom id msg [] link.inFlight with
  | (.ok (), _, written) => some { link with inFlight := written }
  | (.error _, _, _) => none

/-- A `read` of `read_frame` returns `count` bytes. -/
def arrive (link : ByteLink) (count : Nat) : Option ByteLink :=
  match decodeFrame link.readBuf with
  | (.ok none, readBuf) =>
      if 0 < count ∧ count ≤ link.inFlight.length then
        some ⟨link.inFlight.drop count, readBuf ++ link.inFlight.take count⟩
      else none
  | _ => none

/-- `read_frame` returns a message. -/
def readFrame (link : ByteLink) : Option (Message × ByteLink) :=
  match decodeFrame link.readBuf with
  | (.ok (some msg), readBuf) => some (msg, { link with readBuf := readBuf })
  | _ => none

/-- `read_frame` returns an error. -/
def Malformed (link : ByteLink) : Prop :=
  ∃ error readBuf, decodeFrame link.readBuf = (.error error, readBuf)

/-- The bytes on the way are the frames of these messages. -/
structure Carries (link : ByteLink) (msgs : List Message) : Prop where
  fits : ∀ msg ∈ msgs, Fits msg
  bytes : link.readBuf ++ link.inFlight = msgs.flatMap frameOf

theorem carries_empty : empty.Carries [] := ⟨nofun, rfl⟩

variable {link next : ByteLink} {msgs : List Message} {msg : Message}

theorem carries_writeFrame (carries : link.Carries msgs)
    (wrote : link.writeFrame msg = some next) : next.Carries (msgs ++ [msg]) := by
  by_cases fits : Fits msg
  · simp only [writeFrame, Net.writeFrameFrom, encodeFrame_of_fits fits,
      Option.some.injEq] at wrote
    subst wrote
    constructor
    · exact List.forall_mem_append.mpr ⟨carries.fits, List.forall_mem_singleton.mpr fits⟩
    · rw [List.flatMap_append, ← carries.bytes]
      simp
  · simp [writeFrame, Net.writeFrameFrom, encodeFrame_of_not_fits fits] at wrote

theorem carries_arrive {count : Nat} (carries : link.Carries msgs)
    (arrived : link.arrive count = some next) : next.Carries msgs := by
  unfold arrive at arrived
  split at arrived
  · rename_i readBuf decoded
    have kept : readBuf = link.readBuf := frameDecoder.incomplete_keeps decoded
    obtain ⟨_, moved⟩ := Option.ite_none_right_eq_some.mp arrived
    cases moved
    refine ⟨carries.fits, ?_⟩
    rw [kept, List.append_assoc, List.take_append_drop]
    exact carries.bytes
  · cases arrived

/-- The decoder sees the first of the messages, once its frame is complete. -/
theorem decodeFrame_cons (fits : Fits msg) (rest : List UInt8) :
    decodeFrame (frameOf msg ++ rest) = (.ok (some msg), rest) := by
  rw [← Frame.bytes_ofMessage fits, decodeFrame_frame, Frame.parse_ofMessage fits]

/-- What is read is the message in front. -/
theorem carries_readFrame (carries : link.Carries msgs)
    (read : link.readFrame = some (msg, next)) :
    ∃ later, msgs = msg :: later ∧ next.Carries later := by
  unfold readFrame at read
  split at read
  · rename_i first rest decoded
    cases read
    have whole := frameDecoder.item_append link.inFlight decoded
    rw [carries.bytes] at whole
    cases msgs with
    | nil => cases whole
    | cons head later =>
        obtain ⟨fitsHead, fitsLater⟩ := List.forall_mem_cons.mp carries.fits
        have decodes := decodeFrame_cons fitsHead (later.flatMap frameOf)
        rw [List.flatMap_cons] at whole
        obtain ⟨sameMsg, sameRest⟩ := Prod.mk.inj (decodes.symm.trans whole)
        cases sameMsg
        exact ⟨later, rfl, fitsLater, sameRest.symm⟩
  · cases read

/-- Frames that were written never fail to decode. -/
theorem not_malformed (carries : link.Carries msgs) : ¬ link.Malformed := by
  rintro ⟨error, readBuf, decoded⟩
  have whole := (frameDecoder.error_append link.inFlight decoded).2
  rw [carries.bytes] at whole
  cases msgs with
  | nil => cases whole
  | cons head later =>
      have decodes := decodeFrame_cons (carries.fits head List.mem_cons_self)
        (later.flatMap frameOf)
      rw [List.flatMap_cons] at whole
      cases decodes.symm.trans whole

/-- A message on the way can be read, or more of its bytes can arrive. -/
theorem progress (carries : link.Carries (msg :: msgs)) :
    (∃ next, link.readFrame = some (msg, next)) ∨ ∃ next, link.arrive 1 = some next := by
  rcases decoded : decodeFrame link.readBuf with ⟨result, rest⟩
  match result with
  | .ok (some read) =>
      have reads : link.readFrame = some (read, { link with readBuf := rest }) := by
        rw [readFrame, decoded]
      obtain ⟨_, same, _⟩ := carries_readFrame carries reads
      obtain ⟨rfl, _⟩ := List.cons_eq_cons.mp same
      exact .inl ⟨_, reads⟩
  | .error error => exact absurd ⟨error, rest, decoded⟩ (not_malformed carries)
  | .ok none =>
      have bytesLeft : 1 ≤ link.inFlight.length := by
        by_contra empty
        have nothing : link.inFlight = [] := List.length_eq_zero_iff.mp (by omega)
        have bytes := carries.bytes
        rw [nothing, List.append_nil, List.flatMap_cons] at bytes
        rw [bytes, decodeFrame_cons (carries.fits msg List.mem_cons_self)] at decoded
        cases decoded
      right
      simp only [arrive, decoded, if_pos (And.intro Nat.one_pos bytesLeft)]
      exact ⟨_, rfl⟩

end ByteLink

end Kmwarp
