import Kmwarp.Client.Pump
import Kmwarp.Net.Framing

/-!
# From a source event to the sink

A source event is converted on the server, written as a frame, cut into reads
by the network, decoded by the client and dispatched to its sink.  What the
sink is asked for is stated on the source event alone.
-/

namespace Kmwarp

open Foundation Wire

namespace ModMask

/-- The mask with its reserved bits cleared. -/
def restricted (mask : ModMask) : ModMask :=
  ⟨mask.bits &&& definedBits⟩

theorem fromWire_toWire (mask : ModMask) : fromWire mask.toWire = mask.restricted := by
  simp only [fromWire, toWire, restricted, UInt8.and_assoc, UInt8.and_self]

end ModMask

/-- The call a source event asks of the peer's sink. -/
def ModRemap.sinkCall? (remap : ModRemap) : SourceEvent → Option SinkCall
  | .mouseRel dx dy => some (.injectMouseRel dx.toInt dy.toInt)
  | .mouseButton button state => some (.injectMouseButton button state)
  | .mouseWheel dx dy => some (.injectMouseWheel dx dy)
  | .key hidUsage state mods =>
      some (.injectKey (remap.applyToHid hidUsage) state
        (remap.applyToModmask mods).restricted)
  | .cursorAt _ _ => none

/-- The messages the server converts a list of source events to. -/
def ModRemap.messages (remap : ModRemap) (events : List SourceEvent) : List Message :=
  events.filterMap fun event => sourceEventToMessageRemapped event remap

/-- Write messages one after another, up to the first failure. -/
def Server.FrameWriter.writeFrames (writer : Net.FrameWriter) :
    List Message → Except Server.ServerError Unit × Net.FrameWriter
  | [] => (.ok (), writer)
  | msg :: msgs =>
      match Server.FrameWriter.writeFrame writer msg with
      | (.ok (), writer) => Server.FrameWriter.writeFrames writer msgs
      | (.error error, writer) => (.error error, writer)

/-! ## Encoding -/

/-- Converted events are small. -/
theorem fits_of_sourceEventToMessageRemapped {event : SourceEvent} {remap : ModRemap}
    {msg : Message} (converted : sourceEventToMessageRemapped event remap = some msg) :
    Fits msg := by
  cases event with
  | cursorAt x y => cases converted
  | mouseRel | mouseButton | mouseWheel | key =>
      cases converted
      simp [Fits, payloadLenOf, maxPayloadLen]

theorem encodeFrames_of_fits {msgs : List Message} (fits : ∀ msg ∈ msgs, Fits msg) :
    encodeFrames msgs = some (msgs.flatMap frameOf) := by
  induction msgs with
  | nil => rfl
  | cons msg msgs ih =>
      obtain ⟨here, later⟩ := List.forall_mem_cons.mp fits
      rw [encodeFrames, encodeFrame_of_fits here, ih later]
      rfl

/-- Writing messages that fit appends their frames to the stream. -/
theorem writeFrames_of_fits {msgs : List Message} (fits : ∀ msg ∈ msgs, Fits msg)
    (writer : Net.FrameWriter) :
    ∃ scratch, Server.FrameWriter.writeFrames writer msgs =
      (.ok (), ⟨writer.writeHalf ++ msgs.flatMap frameOf, scratch⟩) := by
  induction msgs generalizing writer with
  | nil => exact ⟨writer.scratch, by simp [Server.FrameWriter.writeFrames]⟩
  | cons msg msgs ih =>
      obtain ⟨here, later⟩ := List.forall_mem_cons.mp fits
      obtain ⟨scratch, written⟩ := ih later ⟨writer.writeHalf ++ frameOf msg, frameOf msg⟩
      refine ⟨scratch, ?_⟩
      have first : Server.FrameWriter.writeFrame writer msg =
          (.ok (), ⟨writer.writeHalf ++ frameOf msg, frameOf msg⟩) := by
        simp [Server.FrameWriter.writeFrame, Net.FrameWriter.writeFrameWith,
          Net.writeFrameFrom, encodeFrame_of_fits here]
      rw [Server.FrameWriter.writeFrames, first]
      simp only [written, List.flatMap_cons, List.append_assoc]

/-! ## Dispatching -/

/-- A converted event makes the client perform exactly its sink call. -/
theorem sinkCalls_converted {event : SourceEvent} {remap : ModRemap} {msg : Message}
    (converted : sourceEventToMessageRemapped event remap = some msg) :
    Client.sinkCalls msg = (remap.sinkCall? event).toList := by
  cases event with
  | cursorAt x y => cases converted
  | mouseRel | mouseWheel | mouseButton =>
      cases converted
      simp [Client.sinkCalls, applyMouseToSink, applyKeyToSink, ModRemap.sinkCall?]
  | key =>
      cases converted
      simp [Client.sinkCalls, applyMouseToSink, applyKeyToSink, ModRemap.sinkCall?,
        ModMask.fromWire_toWire]

theorem converted_ne_bye {event : SourceEvent} {remap : ModRemap} {msg : Message}
    (converted : sourceEventToMessageRemapped event remap = some msg) (reason : UInt8) :
    msg ≠ .bye reason := by
  cases event <;> cases converted <;> simp

/-- The loop dispatches the converted events and waits for more. -/
theorem injectorLoop_messages (env : Client.InjectorEnv) (remap : ModRemap)
    (events : List SourceEvent) (session : Client.Session) :
    ∃ final, Client.injectorLoop env ((remap.messages events).map .ok) session =
        (.cancelled, final) ∧
      final.guard.sink = session.guard.sink ++ events.filterMap remap.sinkCall? := by
  induction events generalizing session with
  | nil => exact ⟨session, rfl, (List.append_nil _).symm⟩
  | cons event events ih =>
      cases converted : sourceEventToMessageRemapped event remap with
      | none =>
          have silent : remap.sinkCall? event = none := by
            cases event with
            | cursorAt x y => rfl
            | mouseRel | mouseButton | mouseWheel | key => cases converted
          simpa [ModRemap.messages, converted, silent] using ih session
      | some msg =>
          obtain ⟨next, dispatched, dispatches⟩ := Client.dispatchOne_spec env msg session
          have called := dispatches.sink
          rw [sinkCalls_converted converted] at called
          obtain ⟨final, rest, calls⟩ := ih next
          refine ⟨final, ?_, ?_⟩
          · rw [ModRemap.messages, List.filterMap_cons, converted]
            simp only [List.map_cons, Client.injectorLoop, dispatched]
            split
            · exact absurd rfl (converted_ne_bye converted _)
            · exact rest
          · rw [calls, called, List.append_assoc]
            cases call : remap.sinkCall? event <;> simp [call]

/-! ## The whole path -/

/-- Any cut of a concatenation of encodings is read as the encoded messages. -/
theorem readFrames_encoded {msgs : List Message} {reads : Net.DynRead}
    (encoded : encodeFrames msgs = some reads.flatten)
    (nonempty : ∀ read ∈ reads, read ≠ []) :
    (Net.results Client.FrameReader.readFrame msgs.length ⟨reads, []⟩).1 =
      msgs.map .ok := by
  have parses := parses_of_referenceParse (referenceParse_encodeFrames encoded)
  rw [← List.nil_append reads.flatten] at parses
  have items := StreamDecoder.readItems_eq msgs.length nonempty parses
  have read := Net.results_reader Client.readErrors msgs.length ⟨reads, []⟩
  rw [items, List.map_map, Net.ofResult_resultAt, Net.map_resultAt_length] at read
  exact read

/-- Input reaches the client's sink faithfully.  For every remap and every list
of source events, writing the converted messages puts a stream on the wire;
however that stream is cut into reads, the client reads it back and, dispatching
every frame, performs exactly the sink calls the events stand for, in order. -/
theorem input_reaches_sink (remap : ModRemap) (events : List SourceEvent)
    (env : Client.InjectorEnv) (session : Client.Session) :
    ∃ stream, encodeFrames (remap.messages events) = some stream ∧
      (∀ writer : Net.FrameWriter, ∃ scratch,
        Server.FrameWriter.writeFrames writer (remap.messages events) =
          (.ok (), ⟨writer.writeHalf ++ stream, scratch⟩)) ∧
      ∀ reads : Net.DynRead, reads.flatten = stream → (∀ read ∈ reads, read ≠ []) →
        ∃ final,
          Client.injectorLoop env
              (Net.results Client.FrameReader.readFrame (remap.messages events).length
                ⟨reads, []⟩).1 session =
            (.cancelled, final) ∧
          final.guard.sink = session.guard.sink ++ events.filterMap remap.sinkCall? := by
  have fits : ∀ msg ∈ remap.messages events, Fits msg := by
    intro msg member
    obtain ⟨event, _, converted⟩ := List.mem_filterMap.mp member
    exact fits_of_sourceEventToMessageRemapped converted
  have encoded := encodeFrames_of_fits fits
  refine ⟨_, encoded, writeFrames_of_fits fits, ?_⟩
  intro reads whole nonempty
  rw [← whole] at encoded
  rw [readFrames_encoded encoded nonempty]
  exact injectorLoop_messages env remap events session

/-- Extreme motion, a stray cursor position, and a key with reserved modifier
bits, over three reads. -/
theorem input_reaches_sink_extremes :
    ∃ final,
      Client.injectorLoop ⟨fun _ => .replicate 32 0, fun _ _ => true, "peer"⟩
          (Net.results Client.FrameReader.readFrame 2
            ⟨[[0x10, 4], [0, 0, 0x80, 0xFF, 0x7F, 0x20, 4, 0, 0xE0],
              [0, 1, 7]], []⟩).1
          ⟨.new {}, ⟨[], Nat.zero_le _⟩, true, none⟩ =
        (.cancelled, final) ∧
      final.guard.sink =
        [.injectMouseRel (-32768) 32767, .injectKey Usage.leftCtrl .down ⟨7⟩] := by
  obtain ⟨stream, encoded, _, delivered⟩ :=
    input_reaches_sink {} [.mouseRel (-32768) 32767, .cursorAt (-1) 70000,
      .key Usage.leftGui .down ⟨0xFF⟩]
      ⟨fun _ => .replicate 32 0, fun _ _ => true, "peer"⟩
      ⟨.new {}, ⟨[], Nat.zero_le _⟩, true, none⟩
  have cut : List.flatten [[0x10, 4], [0, 0, 0x80, 0xFF, 0x7F, 0x20, 4, 0, 0xE0],
      [0, 1, 7]] = stream := Option.some.inj (Eq.trans (by decide) encoded)
  exact delivered _ cut (by decide)

end Kmwarp
