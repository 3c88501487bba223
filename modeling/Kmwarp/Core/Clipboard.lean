import Kmwarp.Core.Wire.RoundTrip
import Kmwarp.Foundation.Chunking

/-!
# Clipboard chunking, reassembly and echo suppression

A payload travels as `ClipboardText` frames between a `FIRST` and a `LAST`
flag.  The echo guard remembers the hash of the last text written for the
peer.
-/

namespace Kmwarp

open Foundation Wire

def chunkSize : Nat := 4 * 1024

theorem chunkSize_pos : 0 < chunkSize := by decide

namespace ChunkFlags

def empty : UInt8 := 0

def first : UInt8 := 0b00000001

def last : UInt8 := 0b00000010

/-- `from_bits_truncate(bits).contains(flag)`. -/
def contains (bits flag : UInt8) : Bool :=
  bits &&& (first ||| last) &&& flag == flag

end ChunkFlags

/-- Split a text into one or more messages. -/
def Chunker.split (text : String) : List Message :=
  let bytes := asBytes text
  if bytes.length ≤ chunkSize then
    [.clipboardText (ChunkFlags.first ||| ChunkFlags.last) bytes]
  else
    let chunks := pieces chunkSize chunkSize_pos bytes
    let lastIdx := chunks.length - 1
    chunks.mapIdx fun i chunk =>
      let flags := ChunkFlags.empty
      let flags := if i = 0 then flags ||| ChunkFlags.first else flags
      let flags := if i = lastIdx then flags ||| ChunkFlags.last else flags
      .clipboardText flags chunk

inductive ReassembleError where
  | chunkWithoutFirst
  | notUtf8 (error : Utf8Error)
deriving DecidableEq

structure Reassembler where
  buffer : List UInt8 := []
  inProgress : Bool := false
deriving DecidableEq

/-- Feed one message.  A completed payload is returned as text. -/
def Reassembler.ingest (reassembler : Reassembler) (msg : Message) :
    Except ReassembleError (Option String) × Reassembler :=
  match msg with
  | .clipboardText chunkFlags bytes =>
      let reassembler :=
        if ChunkFlags.contains chunkFlags ChunkFlags.first then ⟨[], true⟩
        else reassembler
      if reassembler.inProgress then
        let buffer := reassembler.buffer ++ bytes
        if ChunkFlags.contains chunkFlags ChunkFlags.last then
          match String.fromUTF8? ⟨buffer.toArray⟩ with
          | some text => (.ok (some text), ⟨[], false⟩)
          | none => (.error (.notUtf8 ⟨buffer⟩), ⟨[], false⟩)
        else (.ok none, ⟨buffer, true⟩)
      else (.error .chunkWithoutFirst, reassembler)
  | _ => (.ok none, reassembler)

structure EchoGuard where
  lastRemoteHash : Option Bytes32 := none
deriving DecidableEq

namespace EchoGuard

variable (sha256 : List UInt8 → Bytes32)

def rememberRemoteWrite (_ : EchoGuard) (text : String) : EchoGuard :=
  ⟨some (sha256 (asBytes text))⟩

/-- The text is the last one written for the peer. -/
def isEchoOfRemote (guard : EchoGuard) (text : String) : Bool :=
  match guard.lastRemoteHash with
  | some hash => hash = sha256 (asBytes text)
  | none => false

def clear (_ : EchoGuard) : EchoGuard := {}

end EchoGuard

/-! ## Frames as chunks -/

/-- The flag byte of a chunk. -/
def chunkFlagsOf (isFirst isLast : Bool) : UInt8 :=
  (if isFirst then ChunkFlags.first else ChunkFlags.empty) |||
    (if isLast then ChunkFlags.last else ChunkFlags.empty)

def frameOfChunk (chunk : Chunk UInt8) : Message :=
  .clipboardText (chunkFlagsOf chunk.isFirst chunk.isLast) chunk.items

/-- The chunk a clipboard frame carries. -/
def chunkOf : Message → Option (Chunk UInt8)
  | .clipboardText chunkFlags bytes =>
      some ⟨ChunkFlags.contains chunkFlags ChunkFlags.first,
        ChunkFlags.contains chunkFlags ChunkFlags.last, bytes⟩
  | _ => none

def isClipboardText (msg : Message) : Bool :=
  (chunkOf msg).isSome

/-- The other frames of a stream carry no chunk. -/
theorem filterMap_chunkOf_filter (msgs : List Message) :
    (msgs.filter isClipboardText).filterMap chunkOf = msgs.filterMap chunkOf := by
  rw [List.filterMap_filter]
  congr 1
  funext msg
  cases carried : chunkOf msg <;> simp [isClipboardText, carried]

theorem contains_chunkFlagsOf (isFirst isLast : Bool) :
    ChunkFlags.contains (chunkFlagsOf isFirst isLast) ChunkFlags.first = isFirst ∧
      ChunkFlags.contains (chunkFlagsOf isFirst isLast) ChunkFlags.last = isLast := by
  cases isFirst <;> cases isLast <;> decide

@[simp] theorem chunkOf_frameOfChunk (chunk : Chunk UInt8) :
    chunkOf (frameOfChunk chunk) = some chunk := by
  obtain ⟨first, last⟩ := contains_chunkFlagsOf chunk.isFirst chunk.isLast
  rw [frameOfChunk, chunkOf, first, last]

theorem filterMap_chunkOf_frames (chunks : List (Chunk UInt8)) :
    (chunks.map frameOfChunk).filterMap chunkOf = chunks := by
  rw [List.filterMap_map]
  have same : chunkOf ∘ frameOfChunk = some := funext chunkOf_frameOfChunk
  rw [same, List.filterMap_some]

/-- The pieces a text is cut into. -/
def partsOf (text : String) : List (List UInt8) :=
  if (asBytes text).length ≤ chunkSize then [asBytes text]
  else pieces chunkSize chunkSize_pos (asBytes text)

theorem partsOf_ne_nil (text : String) : partsOf text ≠ [] := by
  rw [partsOf]
  split
  · exact List.cons_ne_nil _ _
  · rename_i long
    apply pieces_ne_nil
    intro empty
    rw [empty] at long
    exact long (Nat.zero_le _)

theorem flatten_partsOf (text : String) : (partsOf text).flatten = asBytes text := by
  rw [partsOf]
  split
  · exact List.flatten_singleton
  · exact flatten_pieces chunkSize chunkSize_pos _

theorem length_le_of_mem_partsOf {text : String} {part : List UInt8}
    (member : part ∈ partsOf text) : part.length ≤ chunkSize := by
  rw [partsOf] at member
  split at member
  · rename_i short
    rw [List.mem_singleton.mp member]
    exact short
  · exact length_le_of_mem_pieces member

/-- Setting the two flags one after the other gives the flag byte. -/
private theorem setFlags_eq (isFirst isLast : Prop) [Decidable isFirst]
    [Decidable isLast] :
    (if isLast then
        (if isFirst then ChunkFlags.empty ||| ChunkFlags.first else ChunkFlags.empty) |||
          ChunkFlags.last
      else if isFirst then ChunkFlags.empty ||| ChunkFlags.first else ChunkFlags.empty) =
      chunkFlagsOf (decide isFirst) (decide isLast) := by
  by_cases first : isFirst <;> by_cases last : isLast <;> simp [first, last] <;> decide

/-- The frames of a text are its marked pieces. -/
theorem split_eq_marked (text : String) :
    Chunker.split text = (marked (partsOf text)).map frameOfChunk := by
  rw [Chunker.split, partsOf, marked]
  split
  · rfl
  · apply List.ext_getElem
    · simp
    · intro i _ _
      simp only [List.getElem_mapIdx, List.getElem_map, frameOfChunk, setFlags_eq]

/-- The frames of a text transmit its bytes. -/
theorem transmits_split (text : String) :
    Transmits (marked (partsOf text)) (asBytes text) := by
  rw [← flatten_partsOf text]
  exact transmits_marked (partsOf_ne_nil text)

/-- Every frame of a text is small enough to be encoded. -/
theorem mem_split {text : String} {msg : Message} (member : msg ∈ Chunker.split text) :
    ∃ chunkFlags bytes, msg = .clipboardText chunkFlags bytes ∧
      bytes.length ≤ chunkSize ∧ Fits msg := by
  rw [split_eq_marked] at member
  obtain ⟨chunk, isMarked, rfl⟩ := List.mem_map.mp member
  obtain ⟨index, bound, rfl⟩ := List.exists_of_mem_mapIdx isMarked
  have small := length_le_of_mem_partsOf (List.getElem_mem bound)
  refine ⟨_, _, rfl, small, ?_⟩
  have frameSmall : 3 + (partsOf text)[index].length ≤ maxPayloadLen :=
    Nat.le_trans (Nat.add_le_add_left small 3) (by decide)
  exact frameSmall

/-! ## Reassembly as receiving chunks -/

namespace Reassembler

/-- The payload being assembled, if one is. -/
def assembly (reassembler : Reassembler) : Option (List UInt8) :=
  if reassembler.inProgress then some reassembler.buffer else none

/-- What the reassembler reports for a received chunk. -/
def report : Fed UInt8 → Except ReassembleError (Option String)
  | .stray => .error .chunkWithoutFirst
  | .more => .ok none
  | .done payload =>
      match String.fromUTF8? ⟨payload.toArray⟩ with
      | some text => .ok (some text)
      | none => .error (.notUtf8 ⟨payload⟩)

/-- Only clipboard frames are looked at. -/
theorem ingest_of_not_chunk {msg : Message} (other : chunkOf msg = none)
    (reassembler : Reassembler) : reassembler.ingest msg = (.ok none, reassembler) := by
  cases msg
  case clipboardText => cases other
  all_goals rfl

theorem ingest_of_chunk {msg : Message} {chunk : Chunk UInt8}
    (isChunk : chunkOf msg = some chunk) (reassembler : Reassembler) :
    (reassembler.ingest msg).1 = report (feed reassembler.assembly chunk).1 ∧
      (reassembler.ingest msg).2.assembly = (feed reassembler.assembly chunk).2 := by
  cases msg
  case clipboardText chunkFlags bytes =>
    cases isChunk
    obtain ⟨buffer, inProgress⟩ := reassembler
    cases first : ChunkFlags.contains chunkFlags ChunkFlags.first <;>
      cases last : ChunkFlags.contains chunkFlags ChunkFlags.last <;>
      cases inProgress <;>
      simp [ingest, feed, assembly, report, first, last] <;>
      split <;> simp
  all_goals cases isChunk

/-- Feed messages in order. -/
def ingestAll (reassembler : Reassembler) :
    List Message → List (Except ReassembleError (Option String)) × Reassembler
  | [] => ([], reassembler)
  | msg :: msgs =>
      let (result, reassembler) := reassembler.ingest msg
      let (results, reassembler) := reassembler.ingestAll msgs
      (result :: results, reassembler)

def text? : Except ReassembleError (Option String) → Option String
  | .ok text => text
  | .error _ => none

/-- The texts completed by a list of results. -/
def texts (results : List (Except ReassembleError (Option String))) : List String :=
  results.filterMap text?

theorem texts_cons (result : Except ReassembleError (Option String))
    (results : List (Except ReassembleError (Option String))) :
    texts (result :: results) = (text? result).toList ++ texts results := by
  cases text : text? result <;> simp [texts, text]

/-- A payload completes as the text it encodes, if it encodes one. -/
def decode (payload : List UInt8) : Option String :=
  String.fromUTF8? ⟨payload.toArray⟩

theorem decode_asBytes (text : String) : decode (asBytes text) = some text :=
  fromUTF8?_asBytes text

theorem text?_report (result : Fed UInt8) :
    text? (report result) = result.payload?.bind decode := by
  cases result with
  | stray | more => rfl
  | done payload =>
      rw [report, Fed.payload?, Option.bind_some, decode]
      cases String.fromUTF8? ⟨payload.toArray⟩ <;> rfl

/-- Only a stray chunk or a payload that encodes no text is an error. -/
theorem report_eq_error {result : Fed UInt8} {error : ReassembleError}
    (failed : report result = .error error) :
    result = .stray ∨ ∃ payload, result.payload? = some payload ∧ decode payload = none := by
  cases result with
  | stray => exact .inl rfl
  | more => cases failed
  | done payload =>
      refine .inr ⟨payload, rfl, ?_⟩
      rw [report] at failed
      rw [decode]
      cases decoded : String.fromUTF8? ⟨payload.toArray⟩ with
      | none => rfl
      | some text =>
          rw [decoded] at failed
          cases failed

/-- Ingesting a stream is receiving the chunks in it. -/
theorem ingestAll_eq_feedAll (msgs : List Message) (reassembler : Reassembler) :
    let received := feedAll reassembler.assembly (msgs.filterMap chunkOf)
    texts (reassembler.ingestAll msgs).1 = (completed received.1).filterMap decode ∧
      (reassembler.ingestAll msgs).2.assembly = received.2 ∧
      ∀ error, .error error ∈ (reassembler.ingestAll msgs).1 →
        .stray ∈ received.1 ∨ ∃ payload ∈ completed received.1, decode payload = none := by
  induction msgs generalizing reassembler with
  | nil => simp [ingestAll, feedAll, texts, completed]
  | cons msg msgs ih =>
      cases isChunk : chunkOf msg with
      | none =>
          have ignored := ingest_of_not_chunk isChunk reassembler
          obtain ⟨later, final, errors⟩ := ih reassembler
          rw [List.filterMap_cons_none isChunk]
          simp only [ingestAll, ignored]
          refine ⟨later, final, ?_⟩
          intro error failed
          rcases List.mem_cons.mp failed with same | inRest
          · cases same
          · exact errors error inRest
      | some chunk =>
          obtain ⟨reported, next⟩ := ingest_of_chunk isChunk reassembler
          obtain ⟨later, final, errors⟩ := ih (reassembler.ingest msg).2
          rw [next] at later final errors
          rw [List.filterMap_cons_some isChunk]
          simp only [ingestAll, feedAll, completed_cons]
          refine ⟨?_, final, ?_⟩
          · rw [texts_cons, reported, text?_report, later, List.filterMap_append]
            cases done : (feed reassembler.assembly chunk).1.payload? with
            | none => rfl
            | some payload => cases decoded : decode payload <;> simp [decoded]
          · intro error failed
            rcases List.mem_cons.mp failed with same | inRest
            · rcases report_eq_error (reported.symm.trans same.symm) with
                stray | ⟨payload, done, notText⟩
              · exact .inl (stray ▸ List.mem_cons_self)
              · refine .inr ⟨payload, ?_, notText⟩
                rw [done]
                exact List.mem_append_left _ (List.mem_singleton_self payload)
            · rcases errors error inRest with stray | ⟨payload, member, notText⟩
              · exact .inl (List.mem_cons_of_mem _ stray)
              · exact .inr ⟨payload, List.mem_append_right _ member, notText⟩

end Reassembler

end Kmwarp
