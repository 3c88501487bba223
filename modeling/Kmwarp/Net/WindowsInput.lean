import Kmwarp.Client.Inject
import Kmwarp.Net.InputPath
import Kmwarp.Server.Tap

/-!
# From the event tap to the devices of Windows

The two ends of the input path: what the tap callback makes of an event of the Mac, and
what Windows makes of the requests of the sink.
-/

namespace Kmwarp

open Foundation Wire

/-- What the callback sends for a list of events, from a bitmap of held modifiers. -/
def Server.tapSends (heldMods : UInt32) : List Server.TapEvent → List SourceEvent
  | [] => []
  | event :: events =>
      let (sent, heldMods) := Server.cbThunkSend event heldMods
      sent ++ Server.tapSends heldMods events

/-- What a source event does on Windows. -/
def ModRemap.deviceEvents (remap : ModRemap) : SourceEvent → List Client.DeviceEvent
  | .mouseRel dx dy => [.moveBy dx.toInt dy.toInt]
  | .mouseButton button state => [.button ⟨button, state.isDown⟩]
  | .mouseWheel dx dy => Client.wheelEvents dx dy
  | .key hidUsage state _ => Client.keyEvents (remap.applyToHid hidUsage) state
  | .cursorAt _ _ => []

theorem callEvents_sinkCall? (remap : ModRemap) (event : SourceEvent) :
    (remap.sinkCall? event).toList.flatMap Client.callEvents = remap.deviceEvents event := by
  cases event with
  | mouseRel | mouseButton | cursorAt => rfl
  | mouseWheel | key => exact List.append_nil _

theorem callEvents_sinkCalls (remap : ModRemap) (events : List SourceEvent) :
    (events.filterMap remap.sinkCall?).flatMap Client.callEvents =
      events.flatMap remap.deviceEvents := by
  induction events with
  | nil => rfl
  | cons event events ih =>
      have head := callEvents_sinkCall? remap event
      rw [List.flatMap_cons, ← head, ← ih]
      cases called : remap.sinkCall? event <;> simp [called]

/-! ## Keys of the Mac -/

namespace Server

theorem macosToHid_of_translateKey {event : TapEvent} {state keyState : KeyState}
    {hidUsage : UInt16} {mods : ModMask}
    (translated : translateKey event state = some (.key hidUsage keyState mods)) :
    macosToHid event.vk = some hidUsage := by
  rw [translateKey] at translated
  split at translated
  · cases translated
  · cases isHid : macosToHid event.vk <;> rw [isHid] at translated <;> cases translated
    rfl

theorem macosToHid_of_translateFlagsChanged {event : TapEvent} {heldMods : UInt32}
    {hidUsage : UInt16} {state : KeyState} {mods : ModMask}
    (translated : (translateFlagsChanged event heldMods).1 =
      some (.key hidUsage state mods)) :
    macosToHid event.vk = some hidUsage := by
  rw [translateFlagsChanged] at translated
  cases isHid : macosToHid event.vk <;> cases tracked : modBit event.vk <;>
    simp only [isHid, tracked, Option.some.injEq, SourceEvent.key.injEq, reduceCtorEq]
      at translated
  rw [translated.1]

private theorem ite_fst_cases {α β : Type} {condition : Prop} [Decidable condition]
    {yes no : α × β} {value : α} (equal : (if condition then yes else no).1 = value) :
    yes.1 = value ∨ no.1 = value := by
  by_cases holds : condition
  · exact .inl (by simpa only [if_pos holds] using equal)
  · exact .inr (by simpa only [if_neg holds] using equal)

/-- A key event comes from a key with a usage in the table. -/
theorem macosToHid_of_translate {event : TapEvent} {heldMods : UInt32} {hidUsage : UInt16}
    {state : KeyState} {mods : ModMask}
    (translated : (translate event heldMods).1 = some (.key hidUsage state mods)) :
    macosToHid event.vk = some hidUsage := by
  rw [translate] at translated
  -- the pointer, its buttons and its wheel
  iterate 8 replace translated := (ite_fst_cases translated).resolve_left nofun
  rcases ite_fst_cases translated with keyDown | translated
  · have isKey : translateKey event .down = _ := keyDown
    exact macosToHid_of_translateKey isKey
  rcases ite_fst_cases translated with keyUp | translated
  · have isKey : translateKey event .up = _ := keyUp
    exact macosToHid_of_translateKey isKey
  rcases ite_fst_cases translated with flagsChanged | other
  · exact macosToHid_of_translateFlagsChanged flagsChanged
  · cases other

theorem macosToHid_of_mem_cbThunkSend {event : TapEvent} {heldMods : UInt32}
    {hidUsage : UInt16} {state : KeyState} {mods : ModMask}
    (sent : .key hidUsage state mods ∈ (cbThunkSend event heldMods).1) :
    macosToHid event.vk = some hidUsage := by
  rw [cbThunkSend] at sent
  by_cases disabled : isTapDisabled event.etype = true
  · rw [if_pos disabled] at sent
    cases sent
  · rw [if_neg disabled] at sent
    rcases List.mem_append.mp sent with translated | cursor
    · exact macosToHid_of_translate (Option.mem_toList.mp translated)
    · by_cases motion : isMouseMotion event.etype = true <;> simp [motion] at cursor

/-- Only keys of the Mac are sent. -/
theorem exists_macosToHid_of_mem_tapSends {events : List TapEvent} {heldMods : UInt32}
    {hidUsage : UInt16} {state : KeyState} {mods : ModMask}
    (sent : .key hidUsage state mods ∈ tapSends heldMods events) :
    ∃ vk, macosToHid vk = some hidUsage := by
  induction events generalizing heldMods with
  | nil => cases sent
  | cons event events ih =>
      rcases List.mem_append.mp sent with here | later
      · exact ⟨event.vk, macosToHid_of_mem_cbThunkSend here⟩
      · exact ih later

end Server

/-! ## The whole path -/

/-- Every key of the Mac is one press or release of a scancode. -/
theorem deviceEvents_key_of_macosToHid (remap : ModRemap) {vk hidUsage : UInt16}
    (isHid : macosToHid vk = some hidUsage) (state : KeyState) (mods : ModMask) :
    ∃ scancode, remap.deviceEvents (.key hidUsage state mods) =
      [.key ⟨scancode, state.isDown⟩] := by
  obtain ⟨scancode, found⟩ :=
    Option.isSome_iff_exists.mp (isSome_scancode_of_macosToHid remap isHid)
  exact ⟨scancode, by simp [ModRemap.deviceEvents, Client.keyEvents, found]⟩

/-- What is done at the Mac happens on Windows.  The converted events of any taps put a
stream on the wire; however it is cut into reads, the requests of the client make Windows
do exactly what the events stand for, in order, and no key of the Mac is lost there. -/
theorem taps_reach_windows (remap : ModRemap) (heldMods : UInt32)
    (taps : List Server.TapEvent) (env : Client.InjectorEnv) (session : Client.Session) :
    let events := Server.tapSends heldMods taps
    (∃ stream, encodeFrames (remap.messages events) = some stream ∧
      ∀ reads : Net.DynRead, reads.flatten = stream → (∀ read ∈ reads, read ≠ []) →
        ∃ final requests,
          Client.injectorLoop env
              (Net.results Client.FrameReader.readFrame (remap.messages events).length
                ⟨reads, []⟩).1 session =
            (.cancelled, final) ∧
          final.guard.sink.flatMap Client.WinInputSink.perform =
            session.guard.sink.flatMap Client.WinInputSink.perform ++ requests ∧
          requests.flatMap Client.Request.deviceEvents = events.flatMap remap.deviceEvents) ∧
      ∀ hidUsage state mods, .key hidUsage state mods ∈ events →
        ∃ scancode, remap.deviceEvents (.key hidUsage state mods) =
          [.key ⟨scancode, state.isDown⟩] := by
  intro events
  constructor
  · have fits : ∀ msg ∈ remap.messages events, Fits msg := by
      intro msg member
      obtain ⟨event, _, converted⟩ := List.mem_filterMap.mp member
      exact fits_of_sourceEventToMessageRemapped converted
    have encoded := encodeFrames_of_fits fits
    refine ⟨_, encoded, fun reads whole nonempty => ?_⟩
    rw [← whole] at encoded
    rw [readFrames_encoded encoded nonempty]
    obtain ⟨final, dispatched, sink⟩ := injectorLoop_messages env remap events session
    refine ⟨final, (events.filterMap remap.sinkCall?).flatMap Client.WinInputSink.perform,
      dispatched, ?_, ?_⟩
    · rw [sink, List.flatMap_append]
    · rw [Client.deviceEvents_performAll, callEvents_sinkCalls]
  · intro hidUsage state mods sent
    obtain ⟨vk, isHid⟩ := Server.exists_macosToHid_of_mem_tapSends sent
    exact deviceEvents_key_of_macosToHid remap isHid state mods

/-- A jump of the pointer and left Cmd, over two reads. -/
theorem taps_reach_windows_command :
    ∃ final requests,
      Client.injectorLoop ⟨fun _ => .replicate 32 0, fun _ _ => true, "peer"⟩
          (Net.results Client.FrameReader.readFrame 2
            ⟨[[0x10, 4, 0, 0], [0x80, 5, 0, 0x20, 4, 0, 0xE0, 0, 1, 0]], []⟩).1
          ⟨.new {}, .empty, true, none⟩ =
        (.cancelled, final) ∧
      final.guard.sink.flatMap Client.WinInputSink.perform = [] ++ requests ∧
      requests.flatMap Client.Request.deviceEvents =
        [.moveBy (-32768) 5, .key ⟨⟨0x1D, false⟩, true⟩] := by
  obtain ⟨stream, encoded, delivered⟩ :=
    (taps_reach_windows {} 0
      [{ etype := Server.EventType.mouseMoved, deltaX := -40000, deltaY := 5 },
        { etype := Server.EventType.flagsChanged, keycode := 0x37 }]
      ⟨fun _ => .replicate 32 0, fun _ _ => true, "peer"⟩
      ⟨.new {}, .empty, true, none⟩).1
  have cut : List.flatten [[0x10, 4, 0, 0], [0x80, 5, 0, 0x20, 4, 0, 0xE0, 0, 1, 0]] =
      stream := Option.some.inj (Eq.trans (by decide) encoded)
  exact delivered _ cut (by decide)

end Kmwarp
