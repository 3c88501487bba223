import Kmwarp.Net.Connection

/-!
# Framing is independent of the reads

The read loop is the accumulate-and-retry loop of the incremental frame
decoder, before and after the split, and so returns the reference parse.
-/

namespace Kmwarp.Net

open Foundation Wire

variable {ε : Type}

/-! ## The read loop is the decoder's -/

/-- The error a program reports for an ending. -/
def ReadErrors.ofEnding (errors : ReadErrors ε) : Ending WireError → ε
  | .failed error => errors.wire error
  | .endOfStream => errors.disconnected

def ReadErrors.ofResult (errors : ReadErrors ε) :
    Except (Ending WireError) Message → Except ε Message
  | .ok msg => .ok msg
  | .error ending => .error (errors.ofEnding ending)

theorem readFrameLoop_eq_readItem (errors : ReadErrors ε) (reads : DynRead)
    (buf : List UInt8) :
    readFrameLoop errors reads buf =
      (errors.ofResult (frameDecoder.readItem reads buf).1,
        (frameDecoder.readItem reads buf).2) := by
  have decode : frameDecoder.decode = decodeFrame := rfl
  induction reads generalizing buf with
  | nil =>
      rw [readFrameLoop, StreamDecoder.readItem, decode]
      rcases decodeFrame buf with ⟨_ | _ | _, rest⟩ <;> rfl
  | cons read reads ih =>
      rw [readFrameLoop, StreamDecoder.readItem, decode]
      rcases decodeFrame buf with ⟨error | _ | msg, rest⟩
      · rfl
      · cases read with
        | nil => rfl
        | cons byte bytes => exact ih (rest ++ byte :: bytes)
      · rfl

/-! ## Successive calls -/

/-- The results of successive calls of a method, and the object after them. -/
def results {σ : Type} (call : σ → Except ε Message × σ) :
    Nat → σ → List (Except ε Message) × σ
  | 0, self => ([], self)
  | count + 1, self =>
      let (result, self) := call self
      let (later, self) := results call count self
      (result :: later, self)

/-- The results of `before` calls on the connection, then of `after` calls on
the reader it splits into. -/
def resultsAcrossSplit
    (onConnection : Connection → Except ε Message × Connection)
    (onReader : FrameReader → Except ε Message × FrameReader)
    (before after : Nat) (connection : Connection) : List (Except ε Message) :=
  let (early, connection) := results onConnection before connection
  early ++ (results onReader after connection.intoSplit.1).1

theorem results_connection (errors : ReadErrors ε) (count : Nat)
    (connection : Connection) :
    results (Connection.readFrameWith errors) count connection =
      ((frameDecoder.readItems count connection.streamRead
          connection.readBuf).1.map errors.ofResult,
        { connection with
          streamRead := (frameDecoder.readItems count connection.streamRead
            connection.readBuf).2.1
          readBuf := (frameDecoder.readItems count connection.streamRead
            connection.readBuf).2.2 }) := by
  induction count generalizing connection with
  | zero => rfl
  | succ count ih =>
      simp only [results, Connection.readFrameWith, readFrameLoop_eq_readItem,
        StreamDecoder.readItems, List.map_cons, ih]

theorem results_reader (errors : ReadErrors ε) (count : Nat) (reader : FrameReader) :
    (results (FrameReader.readFrameWith errors) count reader).1 =
      (frameDecoder.readItems count reader.readHalf
        reader.readBuf).1.map errors.ofResult := by
  induction count generalizing reader with
  | zero => rfl
  | succ count ih =>
      simp only [results, FrameReader.readFrameWith, readFrameLoop_eq_readItem,
        StreamDecoder.readItems, List.map_cons, ih]

/-- What the call with the given index returns: the messages in order, then
the ending's error for ever. -/
def resultAt (errors : ReadErrors ε) (msgs : List Message)
    (ending : Ending WireError) (index : Nat) : Except ε Message :=
  match msgs[index]? with
  | some msg => .ok msg
  | none => .error (errors.ofEnding ending)

theorem ofResult_resultAt (errors : ReadErrors ε) (msgs : List Message)
    (ending : Ending WireError) :
    errors.ofResult ∘ StreamDecoder.resultAt msgs ending =
      resultAt errors msgs ending := by
  funext index
  simp only [Function.comp, StreamDecoder.resultAt, resultAt]
  cases msgs[index]? <;> rfl

theorem map_resultAt_length (errors : ReadErrors ε) (msgs : List Message)
    (ending : Ending WireError) :
    (List.range msgs.length).map (resultAt errors msgs ending) = msgs.map .ok := by
  refine List.ext_getElem (by simp) fun index inRange inMsgs => ?_
  have bound : index < msgs.length := by simpa using inMsgs
  simp [resultAt, List.getElem?_eq_getElem bound]

/-- The calls before and after the split return the reference parse of what
was buffered and what was still to be read. -/
theorem resultsAcrossSplit_eq (errors : ReadErrors ε) (before after : Nat)
    {connection : Connection} {msgs : List Message} {ending : Ending WireError}
    (nonempty : ∀ read ∈ connection.streamRead, read ≠ [])
    (reference : ReferenceParse
      (connection.readBuf ++ connection.streamRead.flatten) msgs ending) :
    resultsAcrossSplit (Connection.readFrameWith errors)
        (FrameReader.readFrameWith errors) before after connection =
      (List.range (before + after)).map (resultAt errors msgs ending) := by
  have whole := StreamDecoder.readItems_eq (before + after) nonempty
    (parses_of_referenceParse reference)
  rw [StreamDecoder.readItems_add] at whole
  have mapped := congrArg (List.map errors.ofResult) whole
  rw [List.map_append, List.map_map, ofResult_resultAt] at mapped
  rw [resultsAcrossSplit, results_connection, ← mapped]
  exact congrArg _ (results_reader errors after _)

end Kmwarp.Net

namespace Kmwarp

open Foundation Wire Net

/-- Results of a server's reads with the split after `before` calls. -/
def Server.readResults : Nat → Nat → Connection → List (Except Server.ServerError Message) :=
  resultsAcrossSplit Server.Connection.readFrame Server.FrameReader.readFrame

def Client.readResults : Nat → Nat → Connection → List (Except Client.ClientError Message) :=
  resultsAcrossSplit Client.Connection.readFrame Client.FrameReader.readFrame

/-- However a byte stream is cut into reads and wherever the connection is
split, both programs read the reference parse of the whole stream.  Any cut of
a concatenation of encodings is read as exactly the encoded messages. -/
theorem framing_independent_of_reads :
    (∀ stream : List UInt8, ∃ msgs ending,
      ReferenceParse stream msgs ending ∧
        (∀ otherMsgs otherEnding, ReferenceParse stream otherMsgs otherEnding →
          otherMsgs = msgs ∧ otherEnding = ending) ∧
        ∀ reads : DynRead, reads.flatten = stream → (∀ read ∈ reads, read ≠ []) →
          ∀ before after : Nat,
            Server.readResults before after (.fromIo reads) =
                (List.range (before + after)).map
                  (resultAt Server.readErrors msgs ending) ∧
              Client.readResults before after (.fromIo reads) =
                (List.range (before + after)).map
                  (resultAt Client.readErrors msgs ending)) ∧
      ∀ (msgs : List Message) (stream : List UInt8), encodeFrames msgs = some stream →
        ReferenceParse stream msgs .endOfStream ∧
          ∀ reads : DynRead, reads.flatten = stream → (∀ read ∈ reads, read ≠ []) →
            ∀ before after : Nat, before + after = msgs.length →
              Server.readResults before after (.fromIo reads) = msgs.map .ok ∧
                Client.readResults before after (.fromIo reads) = msgs.map .ok := by
  constructor
  · intro stream
    obtain ⟨msgs, ending, reference⟩ := exists_referenceParse stream
    refine ⟨msgs, ending, reference, fun _ _ => reference.unique, ?_⟩
    rintro reads rfl nonempty before after
    exact ⟨resultsAcrossSplit_eq _ before after nonempty reference,
      resultsAcrossSplit_eq _ before after nonempty reference⟩
  · intro msgs stream encoded
    have reference := referenceParse_encodeFrames encoded
    refine ⟨reference, ?_⟩
    rintro reads rfl nonempty before after count
    constructor
    · rw [← map_resultAt_length Server.readErrors msgs .endOfStream, ← count]
      exact resultsAcrossSplit_eq _ before after nonempty reference
    · rw [← map_resultAt_length Client.readErrors msgs .endOfStream, ← count]
      exact resultsAcrossSplit_eq _ before after nonempty reference

/-- Two frames in three reads, the second straddling the split. -/
theorem framing_independent_of_reads_two_frames :
    Server.readResults 1 1
        (.fromIo [[MsgType.heartbeat, 4], [0, 7, 0, 0, 0, MsgType.bye], [1, 0, 2]]) =
      [.ok (.heartbeat 7), .ok (.bye 2)] :=
  ((framing_independent_of_reads.2 [.heartbeat 7, .bye 2] _ rfl).2
    [[MsgType.heartbeat, 4], [0, 7, 0, 0, 0, MsgType.bye], [1, 0, 2]]
    (by decide) (by decide) 1 1 rfl).1

end Kmwarp
