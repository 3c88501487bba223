import Kmwarp.Client.StuckKeys
import Kmwarp.Net.ClipboardOut

/-!
# Clipboard payloads from the Mac to Windows

The server gives up a payload at the first frame its outbound channel refuses.
The stream to the client is FIFO and loses nothing, so a payload given up is a
prefix that the next one replaces in the client's reassembler.
-/

namespace Kmwarp

open Foundation Wire Net

/-! ## The client's side of a stream -/

namespace Client

/-- The loop completes what the reassembler makes of the dispatched frames. -/
theorem injectorLoop_clipboard (env : InjectorEnv)
    (source : List (Except ClientError Message)) (session : Session) :
    (injectorLoop env source session).2.guard.clipboardWrites =
      session.guard.clipboardWrites ++
        Reassembler.texts (session.guard.reassembler.ingestAll (dispatched source)).1 := by
  induction source generalizing session with
  | nil => simp [injectorLoop, dispatched, Reassembler.ingestAll, Reassembler.texts]
  | cons result source ih =>
      cases result with
      | error error =>
          simp [injectorLoop, dispatched, Reassembler.ingestAll, Reassembler.texts]
      | ok msg =>
          obtain ⟨next, stepped, dispatches⟩ := dispatchOne_spec env msg session
          have reassembled := dispatches.reassembler
          have written := dispatches.clipboardWrites
          cases msg
          case bye reasonCode =>
            simp only [injectorLoop, stepped, dispatched, written, Reassembler.ingestAll,
              Reassembler.texts_cons]
            rfl
          all_goals
            simp only [injectorLoop, stepped, dispatched, ih next, written, reassembled,
              Reassembler.ingestAll, Reassembler.texts_cons, List.append_assoc]

end Client

/-! ## The server's side -/

namespace Server

/-- A copied text, the echo guard when the change is observed, and the outcome
of each `try_send` of its frames. -/
structure Copied where
  text : String
  echoGuard : EchoGuard
  accepts : Nat → Bool

namespace Copied

variable (sha256 : List UInt8 → Bytes32)

/-- The frames that get into the outbound channel. -/
def sent (copied : Copied) : List Message :=
  sendFrames copied.accepts 0 (changeFrames sha256 copied.echoGuard copied.text)

/-- The text is sent, and none of its frames is refused. -/
def delivered (copied : Copied) : Bool :=
  !copied.echoGuard.isEchoOfRemote sha256 copied.text &&
    (List.range (Chunker.split copied.text).length).all copied.accepts

/-- A copied text is an attempt to send its bytes, complete exactly when it is
delivered. -/
theorem exists_attempt (copied : Copied) :
    ∃ attempt : Attempt UInt8, attempt.payload = asBytes copied.text ∧
      attempt.sent.map frameOfChunk = copied.sent sha256 ∧
      attempt.isComplete = copied.delivered sha256 := by
  let chunks := marked (partsOf copied.text)
  have frames : Chunker.split copied.text = chunks.map frameOfChunk :=
    split_eq_marked copied.text
  have transmits : Transmits chunks (asBytes copied.text) := transmits_split copied.text
  by_cases echo : copied.echoGuard.isEchoOfRemote sha256 copied.text = true
  · refine ⟨⟨_, chunks, [], transmits, List.nil_prefix⟩, rfl, ?_, ?_⟩
    · simp [sent, changeFrames, echo, sendFrames]
    · have someChunk : ¬ ([] : List (Chunk UInt8)).length = chunks.length := by
        intro none
        rw [List.eq_nil_of_length_eq_zero none.symm] at transmits
        cases transmits
      rw [delivered, echo, Bool.not_true, Bool.false_and]
      exact decide_eq_false someChunk
  · obtain ⟨count, bound, accepted, whole⟩ :=
      sendFrames_spec copied.accepts 0 (Chunker.split copied.text)
    refine ⟨⟨_, chunks, chunks.take count, transmits, List.take_prefix _ _⟩, rfl, ?_, ?_⟩
    · rw [sent, changeFrames, if_neg echo, accepted, frames, List.map_take]
    · rw [frames, List.length_map] at bound whole
      have sameLength : (chunks.take count).length = count :=
        List.length_take_of_le bound
      simp only [Nat.zero_add] at whole
      rw [Bool.eq_iff_iff]
      simp [Attempt.isComplete, delivered, echo, sameLength, whole, frames]

/-- The copies of a run are attempts, one for each. -/
theorem exists_attempts (copies : List Copied) :
    ∃ attempts : List (Attempt UInt8),
      (attempts.flatMap Attempt.sent).map frameOfChunk =
          copies.flatMap (sent sha256) ∧
        (attempts.filter Attempt.isComplete).map Attempt.payload =
          (copies.filter (delivered sha256)).map fun copied => asBytes copied.text := by
  induction copies with
  | nil => exact ⟨[], rfl, rfl⟩
  | cons copied copies ih =>
      obtain ⟨attempt, payload, frames, complete⟩ := copied.exists_attempt sha256
      obtain ⟨attempts, laterFrames, laterPayloads⟩ := ih
      refine ⟨attempt :: attempts, ?_, ?_⟩
      · rw [List.flatMap_cons, List.map_append, frames, laterFrames, List.flatMap_cons]
      · rw [List.filter_cons, List.filter_cons, complete]
        cases copied.delivered sha256 with
        | false => exact laterPayloads
        | true => simpa [payload] using laterPayloads

theorem mem_split_of_mem_sent {copied : Copied} {msg : Message}
    (member : msg ∈ copied.sent sha256) : msg ∈ Chunker.split copied.text := by
  obtain ⟨count, _, accepted, _⟩ := sendFrames_spec copied.accepts 0
    (changeFrames sha256 copied.echoGuard copied.text)
  rw [sent, accepted] at member
  have changed := List.mem_of_mem_take member
  rw [changeFrames] at changed
  split at changed
  · cases changed
  · exact changed

end Copied

end Server

/-- Payloads from the Mac survive a truncating sender.  Whatever is copied,
whichever frames the outbound channel refuses and whatever else is in the
stream, a session completes exactly the texts none of whose frames was refused,
in order and without an error, and every frame sent is small and can be
encoded. -/
theorem clipboard_survives_truncation (sha256 : List UInt8 → Bytes32)
    (copies : List Server.Copied) (env : Client.InjectorEnv)
    (source : List (Except Client.ClientError Message)) (session : Client.Session)
    (interleaved : (Client.dispatched source).filter isClipboardText =
      copies.flatMap (Server.Copied.sent sha256)) :
    (Client.injectorLoop env source session).2.guard.clipboardWrites =
        session.guard.clipboardWrites ++
          (copies.filter (Server.Copied.delivered sha256)).map Server.Copied.text ∧
      (∀ error, .error error ∉
        (session.guard.reassembler.ingestAll (Client.dispatched source)).1) ∧
      ∀ copied ∈ copies, ∀ msg ∈ copied.sent sha256,
        ∃ chunkFlags bytes, msg = .clipboardText chunkFlags bytes ∧
          bytes.length ≤ 4096 ∧
          ∀ buf, ∃ frame, runEncoder (encodeFrame msg) buf = (.ok (), buf ++ frame) := by
  obtain ⟨attempts, frames, payloads⟩ := Server.Copied.exists_attempts sha256 copies
  have chunks : (Client.dispatched source).filterMap chunkOf =
      attempts.flatMap Attempt.sent := by
    rw [← filterMap_chunkOf_filter, interleaved, ← frames, filterMap_chunkOf_frames]
  obtain ⟨noStray, results⟩ :=
    feedAll_attempts attempts session.guard.reassembler.assembly
  obtain ⟨texts, _, errors⟩ := Reassembler.ingestAll_eq_feedAll
    (Client.dispatched source) session.guard.reassembler
  rw [chunks, results, payloads] at texts errors
  refine ⟨?_, ?_, ?_⟩
  · have decoded : (Reassembler.decode ∘ fun copied => asBytes copied.text) =
        fun copied : Server.Copied => some copied.text :=
      funext fun copied => Reassembler.decode_asBytes copied.text
    rw [Client.injectorLoop_clipboard, texts, List.filterMap_map, decoded,
      List.filterMap_eq_map']
  · intro error failed
    rcases errors error failed with stray | ⟨payload, member, notText⟩
    · exact noStray stray
    · obtain ⟨copied, _, rfl⟩ := List.mem_map.mp member
      rw [Reassembler.decode_asBytes] at notText
      cases notText
  · intro copied _ msg member
    obtain ⟨chunkFlags, bytes, rfl, small, fits⟩ :=
      mem_split (Server.Copied.mem_split_of_mem_sent sha256 member)
    exact ⟨chunkFlags, bytes, rfl, small, fun buf => ⟨_, encodeFrame_of_fits fits buf⟩⟩

/-- The second text is refused, and a heartbeat stands between the others. -/
theorem clipboard_survives_truncation_refused :
    (Client.injectorLoop ⟨fun _ => .replicate 32 0, fun _ _ => true, "peer"⟩
        [.ok (.clipboardText 3 [104, 105]), .ok (.heartbeat 1), .ok (.clipboardText 3 [])]
        ⟨.new {}, .empty, false, none⟩).2.guard.clipboardWrites = ["hi", ""] := by
  let copies : List Server.Copied :=
    [⟨"hi", {}, fun _ => true⟩, ⟨"lost", {}, fun _ => false⟩, ⟨"", {}, fun _ => true⟩]
  rw [(clipboard_survives_truncation (fun _ => .replicate 32 0) copies _ _ _ rfl).1]
  decide

end Kmwarp
