import Kmwarp.Client.Pump
import Kmwarp.Foundation.Runs
import Kmwarp.Net.ClipboardOut

/-!
# Clipboard payloads from Windows to the Mac

The client gives up a payload at the first refused frame.  The server's reader
does not: it drops the frames that its bounded channel refuses and goes on with
the next ones.  Chunks are known by their flags alone, so a payload stays whole
as long as the reader never queues a chunk behind a dropped one while the
receiver still has a payload open.
-/

namespace Kmwarp

open Foundation Wire Net

def clipboardInChannelBound : Nat := 64

/-- The tasks and channels between the two clipboards.  `split` lists the texts
the client has split so far, `written` those handed to the pasteboard;
`queuedLast` records whether the clipboard frame read last was queued. -/
structure ClipboardLink where
  split : List String
  sending : List Message
  txOut : Mailbox Client.outboundChannelBound Message
  wire : List Message
  clipIn : Mailbox clipboardInChannelBound Message
  queuedLast : Bool
  reassembler : Reassembler
  echoGuard : EchoGuard
  written : List String

/-- One atomic step.  `change` is a clipboard change on the client with its echo
guard at that time, `other` a frame another task of the client sends. -/
inductive LinkLabel where
  | change (text : String) (echoGuard : EchoGuard)
  | trySend
  | other (msg : Message)
  | encode
  | read
  | ingest
deriving DecidableEq

namespace ClipboardLink

def start : ClipboardLink where
  split := []
  sending := []
  txOut := .empty
  wire := []
  clipIn := .empty
  queuedLast := true
  reassembler := {}
  echoGuard := {}
  written := []

/-- `reader_task` on one frame.  A `Bye` ends the task. -/
def readFrame (link : ClipboardLink) (msg : Message) : Option ClipboardLink :=
  match msg with
  | .bye _ => none
  | .clipboardText .. =>
      match link.clipIn.trySend msg with
      | some clipIn => some { link with clipIn := clipIn, queuedLast := true }
      | none => some { link with queuedLast := false }
  | _ => some link

/-- `clipboard_in_task` on one frame. -/
def ingestFrame (sha256 : List UInt8 → Bytes32) (link : ClipboardLink)
    (msg : Message) : ClipboardLink :=
  match link.reassembler.ingest msg with
  | (.ok (some text), reassembler) =>
      { link with
        reassembler := reassembler
        echoGuard := link.echoGuard.rememberRemoteWrite sha256 text
        written := link.written ++ [text] }
  | (.ok none, reassembler) | (.error _, reassembler) =>
      { link with reassembler := reassembler }

def step (sha256 : List UInt8 → Bytes32) (link : ClipboardLink) :
    LinkLabel → Option ClipboardLink
  | .change text echoGuard =>
      match link.sending with
      | [] =>
          if echoGuard.isEchoOfRemote sha256 text then some link
          else
            some { link with
              split := link.split ++ [text]
              sending := changeFrames sha256 echoGuard text }
      | _ :: _ => none
  | .trySend =>
      match link.sending with
      | [] => none
      | msg :: _ =>
          match link.txOut.trySend msg with
          | some txOut =>
              some { link with txOut := txOut, sending := afterTrySend link.sending true }
          | none => some { link with sending := afterTrySend link.sending false }
  | .other msg =>
      if isClipboardText msg then none
      else some { link with txOut := link.txOut.offer msg }
  | .encode =>
      match link.txOut.recv with
      | some (msg, txOut) => some { link with txOut := txOut, wire := link.wire ++ [msg] }
      | none => none
  | .read =>
      match link.wire with
      | msg :: wire => { link with wire := wire }.readFrame msg
      | [] => none
  | .ingest =>
      match link.clipIn.recv with
      | some (msg, clipIn) => some ({ link with clipIn := clipIn }.ingestFrame sha256 msg)
      | none => none

/-- The frame is a chunk without `FIRST`. -/
def isContinuation (msg : Message) : Bool :=
  match chunkOf msg with
  | some chunk => !chunk.isFirst
  | none => false

/-- A frame without `FIRST` is queued only behind a queued clipboard frame, or
when the receiver has no payload open behind all queued frames. -/
def KeepsChunks (link : ClipboardLink) (label : LinkLabel) : Prop :=
  label = .read → ∀ msg ∈ link.wire.head?, isContinuation msg = true →
    link.clipIn.items.length < clipboardInChannelBound →
      link.queuedLast = true ∨
        (link.reassembler.ingestAll link.clipIn.items).2.inProgress = false

instance (link : ClipboardLink) (label : LinkLabel) : Decidable (link.KeepsChunks label) :=
  inferInstanceAs (Decidable (_ → _))

/-- Every text handed to the pasteboard is one of the split texts. -/
def Intact (link : ClipboardLink) : Prop :=
  ∀ text ∈ link.written, text ∈ link.split

/-! ## The invariant -/

/-- The payload is one of the split texts. -/
def IsSplit (link : ClipboardLink) (payload : List UInt8) : Prop :=
  ∃ text ∈ link.split, payload = asBytes text

/-- The frames that the client has sent and the server has not read. -/
def inTransit (link : ClipboardLink) : List Message :=
  link.wire ++ link.txOut.items

/-- What the receiver makes of the queued frames. -/
def received (link : ClipboardLink) : List (Fed UInt8) × Option (List UInt8) :=
  feedAll link.reassembler.assembly (link.clipIn.items.filterMap chunkOf)

/-- The frames in transit continue what was read, the frames left to send
continue those in transit, the receiver tracks what was read unless a frame was
dropped, and everything completed or about to be is a split text. -/
structure Sound (link : ClipboardLink) (readCursor sentCursor : Cursor UInt8) : Prop where
  transit : SendsAll link.IsSplit readCursor (link.inTransit.filterMap chunkOf) sentCursor
  readValid : readCursor.Valid link.IsSplit
  pending : ∃ chunks, link.sending = chunks.map frameOfChunk ∧
    sentCursor.Pending link.IsSplit chunks
  tracks : link.queuedLast = true → Tracks readCursor link.received.2
  queued : ∀ payload ∈ completed link.received.1, link.IsSplit payload
  intact : link.Intact

theorem sound_start : Sound start none none where
  transit := .nil none
  readValid := Cursor.valid_none
  pending := ⟨[], rfl, .inl rfl⟩
  tracks _ := .inl rfl
  queued payload member := by cases member
  intact text member := by cases member

variable {sha256 : List UInt8 → Bytes32} {link next : ClipboardLink}
  {readCursor sentCursor : Cursor UInt8}

/-- A change that is forwarded adds a split text and leaves all of it to be
sent. -/
theorem sound_change {text : String} {echoGuard : EchoGuard}
    (sound : Sound link readCursor sentCursor)
    (stepped : link.step sha256 (.change text echoGuard) = some next) :
    Sound next readCursor sentCursor := by
  cases idle : link.sending with
  | cons msg msgs => simp [step, idle] at stepped
  | nil =>
      by_cases echo : echoGuard.isEchoOfRemote sha256 text = true
      · simp only [step, idle, if_pos echo, Option.some.injEq] at stepped
        exact stepped ▸ sound
      · simp only [step, idle, if_neg echo, Option.some.injEq] at stepped
        subst stepped
        have weaken : ∀ payload, link.IsSplit payload →
            ∃ other ∈ link.split ++ [text], payload = asBytes other := by
          rintro payload ⟨other, member, same⟩
          exact ⟨other, List.mem_append_left _ member, same⟩
        refine ⟨sound.transit.mono weaken, sound.readValid.mono weaken, ?_, sound.tracks,
          fun payload member => weaken payload (sound.queued payload member),
          fun other member => List.mem_append_left _ (sound.intact other member)⟩
        refine ⟨marked (partsOf text), ?_, ?_⟩
        · rw [changeFrames, if_neg echo, split_eq_marked]
        · have isSplit : ∃ other ∈ link.split ++ [text], asBytes text = asBytes other :=
            ⟨text, List.mem_append_right _ (List.mem_singleton_self text), rfl⟩
          exact .inr (.inl ⟨asBytes text, transmits_split text, isSplit⟩)

/-- An accepted frame is the next one of its payload; a refused one ends it. -/
theorem sound_trySend (sound : Sound link readCursor sentCursor)
    (stepped : link.step sha256 .trySend = some next) :
    ∃ nextSent, Sound next readCursor nextSent := by
  obtain ⟨chunks, frames, pending⟩ := sound.pending
  cases chunks with
  | nil => simp [step, frames] at stepped
  | cons chunk chunks =>
      rw [List.map_cons] at frames
      cases accepted : link.txOut.trySend (frameOfChunk chunk) with
      | none =>
          simp only [step, frames, accepted, afterTrySend, Option.some.injEq] at stepped
          subst stepped
          exact ⟨sentCursor, { sound with pending := ⟨[], rfl, .inl rfl⟩ }⟩
      | some txOut =>
          simp only [step, frames, accepted, afterTrySend, Option.some.injEq] at stepped
          subst stepped
          have sentValid := sound.transit.keeps_valid sound.readValid
          obtain ⟨nextSent, sends, rest⟩ := pending.send sentValid
          refine ⟨nextSent, { sound with
            transit := ?_
            pending := ⟨chunks, rfl, rest⟩ }⟩
          have longer : link.wire ++ txOut.items =
              link.inTransit ++ [frameOfChunk chunk] := by
            rw [Mailbox.items_trySend accepted, inTransit, List.append_assoc]
          have chunksInTransit : (link.wire ++ txOut.items).filterMap chunkOf =
              link.inTransit.filterMap chunkOf ++ [chunk] := by
            rw [longer, List.filterMap_append, List.filterMap_cons_some
              (chunkOf_frameOfChunk chunk), List.filterMap_nil]
          change SendsAll link.IsSplit readCursor
            ((link.wire ++ txOut.items).filterMap chunkOf) nextSent
          rw [chunksInTransit]
          exact sound.transit.concat sends

/-- Other frames carry no chunk. -/
theorem sound_other {msg : Message} (sound : Sound link readCursor sentCursor)
    (stepped : link.step sha256 (.other msg) = some next) :
    Sound next readCursor sentCursor := by
  by_cases clipboard : isClipboardText msg = true
  · simp [step, clipboard] at stepped
  · simp only [step, if_neg clipboard, Option.some.injEq] at stepped
    subst stepped
    have noChunk : chunkOf msg = none := by
      simpa [isClipboardText] using clipboard
    refine { sound with transit := ?_ }
    have same : (link.wire ++ (link.txOut.offer msg).items).filterMap chunkOf =
        link.inTransit.filterMap chunkOf := by
      rw [inTransit]
      rcases link.txOut.items_offer msg with queued | dropped
      · rw [queued]
        simp [noChunk]
      · rw [dropped]
    change SendsAll link.IsSplit readCursor
      ((link.wire ++ (link.txOut.offer msg).items).filterMap chunkOf) sentCursor
    rw [same]
    exact sound.transit

/-- The encoder moves a frame from the channel to the wire. -/
theorem sound_encode (sound : Sound link readCursor sentCursor)
    (stepped : link.step sha256 .encode = some next) :
    Sound next readCursor sentCursor := by
  cases taken : link.txOut.recv with
  | none => simp [step, taken] at stepped
  | some result =>
      obtain ⟨msg, txOut⟩ := result
      simp only [step, taken, Option.some.injEq] at stepped
      subst stepped
      refine { sound with transit := ?_ }
      have same : link.wire ++ [msg] ++ txOut.items = link.inTransit := by
        rw [inTransit, Mailbox.items_recv taken, List.append_assoc, List.singleton_append]
      change SendsAll link.IsSplit readCursor
        ((link.wire ++ [msg] ++ txOut.items).filterMap chunkOf) sentCursor
      rw [same]
      exact sound.transit

theorem readFrame_of_not_chunk {msg : Message} (other : chunkOf msg = none)
    (read : link.readFrame msg = some next) : next = link := by
  cases msg
  case clipboardText => cases other
  case bye => cases read
  all_goals exact (Option.some.inj read).symm

/-- A chunk is queued or dropped. -/
theorem readFrame_of_chunk {msg : Message} {chunk : Chunk UInt8}
    (carries : chunkOf msg = some chunk) (read : link.readFrame msg = some next) :
    (∃ clipIn, link.clipIn.trySend msg = some clipIn ∧
      next = { link with clipIn := clipIn, queuedLast := true }) ∨
      next = { link with queuedLast := false } := by
  cases msg
  case clipboardText chunkFlags bytes =>
    rw [readFrame] at read
    split at read
    · rename_i clipIn accepted
      exact .inl ⟨clipIn, accepted, (Option.some.inj read).symm⟩
    · exact .inr (Option.some.inj read).symm
  all_goals cases carries

/-- Behind a queued frame, or with nothing open, the receiver tracks what was
read. -/
theorem tracks_of_keepsChunks (sound : Sound link readCursor sentCursor)
    {msg : Message} {wire : List Message} {chunk : Chunk UInt8}
    {clipIn : Mailbox clipboardInChannelBound Message}
    (front : link.wire = msg :: wire) (carries : chunkOf msg = some chunk)
    (accepted : link.clipIn.trySend msg = some clipIn)
    (allowed : link.KeepsChunks .read) :
    chunk.isFirst = true ∨ Tracks readCursor link.received.2 := by
  cases isFirst : chunk.isFirst with
  | true => exact .inl rfl
  | false =>
      right
      have room : link.clipIn.items.length < clipboardInChannelBound := by
        by_contra full
        rw [Mailbox.trySend, dif_neg full] at accepted
        cases accepted
      have continues : isContinuation msg = true := by
        simp [isContinuation, carries, isFirst]
      have inFront : msg ∈ link.wire.head? := by
        rw [front]
        rfl
      rcases allowed rfl msg inFront continues room with queued | closed
      · exact sound.tracks queued
      · left
        obtain ⟨_, assembled, _⟩ :=
          Reassembler.ingestAll_eq_feedAll link.clipIn.items link.reassembler
        rw [received, ← assembled, Reassembler.assembly, closed]
        rfl

/-- A chunk that is queued is the last one that the receiver is fed. -/
theorem feedAll_trySend {msg : Message} {chunk : Chunk UInt8}
    {clipIn : Mailbox clipboardInChannelBound Message} (carries : chunkOf msg = some chunk)
    (accepted : link.clipIn.trySend msg = some clipIn) :
    feedAll link.reassembler.assembly (clipIn.items.filterMap chunkOf) =
      (link.received.1 ++ [(feed link.received.2 chunk).1],
        (feed link.received.2 chunk).2) := by
  rw [Mailbox.items_trySend accepted, List.filterMap_append, feedAll_append,
    List.filterMap_cons_some carries]
  rfl

theorem sound_read (sound : Sound link readCursor sentCursor)
    (allowed : link.KeepsChunks .read) (stepped : link.step sha256 .read = some next) :
    ∃ nextRead, Sound next nextRead sentCursor := by
  cases front : link.wire with
  | nil => simp [step, front] at stepped
  | cons msg wire =>
      simp only [step, front] at stepped
      have transit := sound.transit
      rw [inTransit, front, List.cons_append] at transit
      cases carries : chunkOf msg with
      | none =>
          rw [List.filterMap_cons_none carries] at transit
          obtain rfl := readFrame_of_not_chunk carries stepped
          exact ⟨readCursor, { sound with transit := transit }⟩
      | some chunk =>
          rw [List.filterMap_cons_some carries] at transit
          cases transit with
          | @cons _ nextRead _ _ _ head tail =>
              have nextValid := head.keeps_valid sound.readValid
              refine ⟨nextRead, ?_⟩
              rcases readFrame_of_chunk carries stepped with ⟨clipIn, accepted, rfl⟩ | rfl
              · have meant :=
                  tracks_of_keepsChunks sound front carries accepted allowed
                obtain ⟨tracks, completes⟩ := feed_sends head sound.readValid meant
                have behind := @feedAll_trySend link msg chunk clipIn carries accepted
                refine { sound with
                  transit := tail
                  readValid := nextValid
                  tracks := fun _ => ?_
                  queued := ?_ }
                · rw [received, behind]
                  exact tracks
                · intro payload member
                  rw [received, behind, completed_append] at member
                  rcases List.mem_append.mp member with earlier | last
                  · exact sound.queued payload earlier
                  · rw [completed_cons] at last
                    exact completes payload (by simpa [completed] using last)
              · exact { sound with
                  transit := tail
                  readValid := nextValid
                  tracks := fun queued => by cases queued }

theorem ingestFrame_eq (link : ClipboardLink) (msg : Message) :
    ∃ echoGuard, link.ingestFrame sha256 msg =
      { link with
        reassembler := (link.reassembler.ingest msg).2
        echoGuard := echoGuard
        written := link.written ++
          (Reassembler.text? (link.reassembler.ingest msg).1).toList } := by
  rw [ingestFrame]
  split
  · rename_i text reassembler ingested
    exact ⟨link.echoGuard.rememberRemoteWrite sha256 text, by rw [ingested]; rfl⟩
  · rename_i reassembler ingested
    exact ⟨link.echoGuard, by rw [ingested]; simp [Reassembler.text?]⟩
  · rename_i reassembler error ingested
    exact ⟨link.echoGuard, by rw [ingested]; simp [Reassembler.text?]⟩

/-- The receiver takes the frame in front and completes what it was to
complete. -/
theorem sound_ingest (sound : Sound link readCursor sentCursor)
    (stepped : link.step sha256 .ingest = some next) :
    Sound next readCursor sentCursor := by
  cases taken : link.clipIn.recv with
  | none => simp [step, taken] at stepped
  | some result =>
      obtain ⟨msg, clipIn⟩ := result
      have items := Mailbox.items_recv taken
      simp only [step, taken, Option.some.injEq] at stepped
      obtain ⟨echoGuard, ingested⟩ :=
        @ingestFrame_eq sha256 { link with clipIn := clipIn } msg
      rw [ingested] at stepped
      subst stepped
      cases carries : chunkOf msg with
      | none =>
          have ignored := Reassembler.ingest_of_not_chunk carries link.reassembler
          have same : link.received =
              feedAll link.reassembler.assembly (clipIn.items.filterMap chunkOf) := by
            rw [received, items, List.filterMap_cons_none carries]
          have tracks := sound.tracks
          have queued := sound.queued
          rw [same] at tracks queued
          refine { sound with tracks := ?_, queued := ?_, intact := ?_ }
          · simpa only [received, ignored] using tracks
          · intro payload member
            simp only [received, ignored] at member
            exact queued payload member
          · simpa [Intact, ignored, Reassembler.text?] using sound.intact
      | some chunk =>
          obtain ⟨reported, assembled⟩ :=
            Reassembler.ingest_of_chunk carries link.reassembler
          let fed := feed link.reassembler.assembly chunk
          let later := feedAll fed.2 (clipIn.items.filterMap chunkOf)
          have front : link.received = (fed.1 :: later.1, later.2) := by
            rw [received, items, List.filterMap_cons_some carries]
            rfl
          have tracks := sound.tracks
          have queued := sound.queued
          rw [front] at tracks queued
          rw [completed_cons] at queued
          refine { sound with tracks := ?_, queued := ?_, intact := ?_ }
          · simpa only [received, assembled] using tracks
          · intro payload member
            simp only [received, assembled] at member
            exact queued payload (List.mem_append_right _ member)
          · intro text member
            rcases List.mem_append.mp member with earlier | completes
            · exact sound.intact text earlier
            · -- A completed text is the one its payload encodes.
              rw [reported, Reassembler.text?_report] at completes
              obtain ⟨payload, done, decoded⟩ :=
                Option.bind_eq_some_iff.mp (Option.mem_toList.mp completes)
              have inFront : payload ∈ fed.1.payload?.toList := Option.mem_toList.mpr done
              obtain ⟨other, isSplit, rfl⟩ :=
                queued payload (List.mem_append_left _ inFront)
              rw [Reassembler.decode_asBytes] at decoded
              exact Option.some.inj decoded ▸ isSplit

theorem sound_step {label : LinkLabel} (sound : Sound link readCursor sentCursor)
    (allowed : link.KeepsChunks label) (stepped : link.step sha256 label = some next) :
    ∃ nextRead nextSent, Sound next nextRead nextSent := by
  cases label with
  | change text echoGuard => exact ⟨_, _, sound_change sound stepped⟩
  | trySend => exact ⟨readCursor, sound_trySend sound stepped⟩
  | other msg => exact ⟨_, _, sound_other sound stepped⟩
  | encode => exact ⟨_, _, sound_encode sound stepped⟩
  | read =>
      obtain ⟨nextRead, nextSound⟩ := sound_read sound allowed stepped
      exact ⟨nextRead, sentCursor, nextSound⟩
  | ingest => exact ⟨_, _, sound_ingest sound stepped⟩

/-- In every run in which no continuation is queued behind a dropped frame of a
payload that the receiver has open, every text handed to the pasteboard is one
of the texts the client split. -/
theorem intact_of_keepsChunks (sha256 : List UInt8 → Bytes32) (labels : List LinkLabel)
    (keeps : Along (step sha256) KeepsChunks start labels) :
    Throughout (step sha256) Intact start labels := by
  have preserved : ∀ link label next, (∃ readCursor sentCursor, Sound link readCursor
      sentCursor) → KeepsChunks link label → step sha256 link label = some next →
      ∃ readCursor sentCursor, Sound next readCursor sentCursor := by
    rintro link label next ⟨readCursor, sentCursor, sound⟩ allowed stepped
    exact sound_step sound allowed stepped
  have always := throughout_of_along preserved ⟨none, none, sound_start⟩ keeps
  apply always.mono
  rintro link ⟨readCursor, sentCursor, sound⟩
  exact sound.intact

/-- One short text from end to end. -/
theorem intact_of_keepsChunks_short :
    Throughout (step fun _ => .replicate 32 0) Intact start
      [.change "hi" {}, .trySend, .encode, .read, .ingest] :=
  intact_of_keepsChunks _ _ (by decide)

/-! ## A chunk is dropped -/

/-- Some copies of the empty text wait for the receiver. -/
def flooded (count : Nat) (bounded : count ≤ clipboardInChannelBound) : ClipboardLink :=
  { start with
    split := .replicate count ""
    clipIn := ⟨.replicate count (.clipboardText 3 []), by simpa using bounded⟩ }

/-- The client copies the empty text, and its frame gets into the channel. -/
def copyEmpty : List LinkLabel :=
  [.change "" {}, .trySend, .encode, .read]

theorem exec_copyEmpty (sha256 : List UInt8 → Bytes32) {count : Nat}
    (bounded : count + 1 ≤ clipboardInChannelBound) :
    exec (step sha256) (flooded count (Nat.le_of_succ_le bounded)) copyEmpty =
      some (flooded (count + 1) bounded) := by
  let before := flooded count (Nat.le_of_succ_le bounded)
  have sent : exec (step sha256) before [.change "" {}, .trySend, .encode] =
      some { before with
        split := before.split ++ [""]
        wire := [.clipboardText 3 []] } := rfl
  have room : before.clipIn.items.length < clipboardInChannelBound := by
    change (List.replicate count _).length < clipboardInChannelBound
    rwa [List.length_replicate]
  obtain ⟨clipIn, accepted, items⟩ :=
    Mailbox.trySend_of_room room (.clipboardText 3 [])
  have longer : clipIn = (flooded (count + 1) bounded).clipIn := by
    apply Mailbox.ext
    rw [items]
    exact List.replicate_succ'.symm
  have again : before.split ++ [""] = (flooded (count + 1) bounded).split :=
    List.replicate_succ'.symm
  have split : copyEmpty = [.change "" {}, .trySend, .encode] ++ [.read] := rfl
  rw [split, exec_append, sent]
  simp only [Option.bind_some, exec, step, readFrame, accepted, longer, again]
  rfl

/-- Copies of the empty text, none of which is received. -/
def flood (count : Nat) : List LinkLabel :=
  (List.replicate count copyEmpty).flatten

theorem exec_flood (sha256 : List UInt8 → Bytes32) {count : Nat}
    (bounded : count ≤ clipboardInChannelBound) :
    exec (step sha256) start (flood count) = some (flooded count bounded) := by
  induction count with
  | zero => rfl
  | succ count ih =>
      rw [flood, List.replicate_succ', List.flatten_concat, exec_append]
      have earlier := ih (Nat.le_of_succ_le bounded)
      rw [flood] at earlier
      rw [earlier, Option.bind_some]
      exact exec_copyEmpty sha256 bounded

theorem ingest_emptyFrame :
    Reassembler.ingest {} (.clipboardText 3 []) = (.ok (some ""), {}) := by
  decide

/-- The receiver completes the waiting empty texts. -/
theorem exec_drain (sha256 : List UInt8 → Bytes32) {count : Nat} {rest : List Message}
    {link : ClipboardLink} (idle : link.reassembler = {})
    (items : link.clipIn.items = List.replicate count (.clipboardText 3 []) ++ rest) :
    ∃ clipIn echoGuard, clipIn.items = rest ∧
      exec (step sha256) link (.replicate count .ingest) =
        some { link with
          clipIn := clipIn
          echoGuard := echoGuard
          written := link.written ++ List.replicate count "" } := by
  induction count generalizing link with
  | zero => exact ⟨link.clipIn, link.echoGuard, items, by simp [exec]⟩
  | succ count ih =>
      rw [List.replicate_succ, List.cons_append] at items
      obtain ⟨waiting, taken, tail⟩ := Mailbox.recv_of_items items
      let echoGuard := link.echoGuard.rememberRemoteWrite sha256 ""
      have ingested : link.step sha256 .ingest = some { link with
          clipIn := waiting
          echoGuard := echoGuard
          written := link.written ++ [""] } := by
        simp only [step, taken, ingestFrame, idle, ingest_emptyFrame]
        rfl
      obtain ⟨clipIn, lastGuard, lastItems, drained⟩ :=
        @ih { link with
          clipIn := waiting
          echoGuard := echoGuard
          written := link.written ++ [""] } idle tail
      refine ⟨clipIn, lastGuard, lastItems, ?_⟩
      rw [List.replicate_succ, exec, ingested, Option.bind_some, drained]
      simp [List.replicate_succ]

/-- The last frame completes whatever the receiver has. -/
theorem ingest_lastFrame {buffer last : List UInt8} {text : String}
    (decoded : Reassembler.decode (buffer ++ last) = some text) :
    Reassembler.ingest ⟨buffer, true⟩ (.clipboardText 2 last) = (.ok (some text), {}) := by
  have notFirst : ChunkFlags.contains 2 ChunkFlags.first = false := by decide
  have isLast : ChunkFlags.contains 2 ChunkFlags.last = true := by decide
  rw [Reassembler.decode] at decoded
  simp [Reassembler.ingest, notFirst, isLast, decoded]

/-- Three frames of a text arrive while the channel has room for one; the last
of them is read when the receiver has caught up. -/
def dropMiddle (text : String) : List LinkLabel :=
  .change text {} ::
    ([.trySend, .trySend, .trySend, .encode, .encode, .encode] ++
      ([.read, .read] ++ (List.replicate 63 .ingest ++ [.ingest, .read, .ingest])))

theorem exec_dropMiddle (sha256 : List UInt8 → Bytes32) {text joined : String}
    {first middle last : List UInt8}
    (frames : Chunker.split text =
      [.clipboardText 1 first, .clipboardText 0 middle, .clipboardText 2 last])
    (decoded : Reassembler.decode (first ++ last) = some joined) :
    ∃ final, exec (step sha256) (flooded 63 (by decide)) (dropMiddle text) = some final ∧
      final.split = List.replicate 63 "" ++ [text] ∧
      final.written = List.replicate 63 "" ++ [joined] := by
  let before := flooded 63 (by decide)
  let sending : List Message :=
    [.clipboardText 1 first, .clipboardText 0 middle, .clipboardText 2 last]
  have changed : before.step sha256 (.change text {}) =
      some { before with split := before.split ++ [text], sending := sending } := by
    have all : changeFrames sha256 {} text = sending := frames
    simp only [step, before, flooded, start, EchoGuard.isEchoOfRemote, all]
    rfl
  have sent : exec (step sha256)
      { before with split := before.split ++ [text], sending := sending }
      [.trySend, .trySend, .trySend, .encode, .encode, .encode] =
        some { before with split := before.split ++ [text], wire := sending } := rfl
  -- The first frame takes the last place, and the second is dropped.
  obtain ⟨full, accepted, fullItems⟩ := @Mailbox.trySend_of_room _ _ before.clipIn
    (by decide) (.clipboardText 1 first)
  have refused : full.trySend (.clipboardText 0 middle) = none := by
    apply Mailbox.trySend_of_full
    simp [fullItems, before, flooded, clipboardInChannelBound]
  have readTwo : exec (step sha256)
      { before with split := before.split ++ [text], wire := sending } [.read, .read] =
        some { before with
          split := before.split ++ [text]
          clipIn := full
          queuedLast := false
          wire := [.clipboardText 2 last] } := by
    simp only [exec, step, readFrame, sending, accepted, refused, Option.bind_some]
  let blocked : ClipboardLink :=
    { before with
      split := before.split ++ [text]
      clipIn := full
      queuedLast := false
      wire := [.clipboardText 2 last] }
  obtain ⟨clipIn, echoGuard, clipItems, drained⟩ :=
    @exec_drain sha256 63 [.clipboardText 1 first] blocked rfl fullItems
  -- With the first frame open, the last one completes what was never sent.
  obtain ⟨empty, taken, emptyItems⟩ := Mailbox.recv_of_items clipItems
  obtain ⟨one, oneAccepted, oneItems⟩ := @Mailbox.trySend_of_room _ _ empty
    (by rw [emptyItems]; decide) (.clipboardText 2 last)
  rw [emptyItems, List.nil_append] at oneItems
  obtain ⟨caughtUp, oneTaken, _⟩ := Mailbox.recv_of_items oneItems
  have opened : Reassembler.ingest {} (.clipboardText 1 first) =
      (.ok none, ⟨first, true⟩) := rfl
  have closed := ingest_lastFrame decoded
  have finished : exec (step sha256)
      { blocked with
        clipIn := clipIn
        echoGuard := echoGuard
        written := blocked.written ++ List.replicate 63 "" } [.ingest, .read, .ingest] =
      some { blocked with
        clipIn := caughtUp
        wire := []
        queuedLast := true
        echoGuard := echoGuard.rememberRemoteWrite sha256 joined
        written := blocked.written ++ List.replicate 63 "" ++ [joined] } := by
    have idle : before.reassembler = {} := rfl
    simp only [exec, step, taken, ingestFrame, idle, opened, readFrame, oneAccepted,
      oneTaken, closed, Option.bind_some, blocked]
  refine ⟨_, Eq.trans ?_ finished, rfl, rfl⟩
  rw [dropMiddle, exec, changed, Option.bind_some, exec_append, sent, Option.bind_some,
    exec_append, readTwo, Option.bind_some, exec_append, drained, Option.bind_some]

/-- A text of the given number of letters. -/
def letters (count : Nat) : String :=
  String.ofList (List.replicate count 'a')

theorem asBytes_letters (count : Nat) : asBytes (letters count) = List.replicate count 97 := by
  have encoded : String.utf8EncodeChar 'a' = [97] := by decide
  have each : (List.replicate count 'a').flatMap String.utf8EncodeChar =
      List.replicate count 97 := by
    induction count with
    | zero => rfl
    | succ count ih =>
        rw [List.replicate_succ, List.flatMap_cons, ih, encoded]
        exact List.replicate_succ.symm
  simpa [asBytes, letters, List.utf8Encode] using each

theorem split_letters :
    Chunker.split (letters 8193) =
      [.clipboardText 1 (List.replicate 4096 97),
        .clipboardText 0 (List.replicate 4096 97), .clipboardText 2 [97]] := by
  have cut : List.replicate 8193 (97 : UInt8) =
      List.replicate 4096 97 ++ (List.replicate 4096 97 ++ [97]) := by
    rw [← List.replicate_one, ← List.replicate_add, ← List.replicate_add]
  have long : ¬ (List.replicate 8193 (97 : UInt8)).length ≤ chunkSize := by
    rw [List.length_replicate]
    decide
  have full : (List.replicate 4096 (97 : UInt8)).length = chunkSize :=
    List.length_replicate
  have parts : partsOf (letters 8193) =
      [List.replicate 4096 97, List.replicate 4096 97, [97]] := by
    rw [partsOf, asBytes_letters, if_neg long, cut, pieces_append full,
      pieces_append full, pieces_of_short (List.cons_ne_nil _ _) (by decide)]
  rw [split_eq_marked, parts]
  rfl

/-- A text of three chunks loses the middle one to the full channel, and the
other two are handed to the pasteboard as one text. -/
theorem not_intact_after_dropped_chunk :
    ∃ labels final, exec (step fun _ => .replicate 32 0) start labels = some final ∧
      final.split = List.replicate 63 "" ++ [letters 8193] ∧
      final.written = List.replicate 63 "" ++ [letters 4097] ∧
      ¬ Intact final := by
  have joined : Reassembler.decode (List.replicate 4096 97 ++ [97]) =
      some (letters 4097) := by
    have whole : List.replicate 4096 (97 : UInt8) ++ [97] = asBytes (letters 4097) := by
      rw [asBytes_letters, ← List.replicate_one, ← List.replicate_add]
    rw [whole, Reassembler.decode_asBytes]
  have bounded : 63 ≤ clipboardInChannelBound := by decide
  obtain ⟨final, dropped, split, written⟩ :=
    exec_dropMiddle (fun _ => .replicate 32 0) split_letters joined
  refine ⟨flood 63 ++ dropMiddle (letters 8193), final, ?_, split, written, ?_⟩
  · rw [exec_append, exec_flood _ bounded, Option.bind_some, dropped]
  · intro intact
    have member : letters 4097 ∈ final.split := by
      apply intact
      rw [written]
      exact List.mem_append_right _ (List.mem_singleton_self _)
    rw [split] at member
    have sizes : ∀ text ∈ List.replicate 63 "" ++ [letters 8193],
        (asBytes text).length ≠ 4097 := by
      intro text inSplit
      rcases List.mem_append.mp inSplit with empty | long
      · rw [List.eq_of_mem_replicate empty]
        decide
      · rw [List.mem_singleton.mp long, asBytes_letters, List.length_replicate]
        decide
    apply sizes _ member
    rw [asBytes_letters, List.length_replicate]

end ClipboardLink

end Kmwarp
