import Kmwarp.Core.ModMap
import Kmwarp.Core.Wire.Message
import Kmwarp.Foundation.KeyLog

/-!
# Between platform types and messages

The byte dictionaries of buttons and key states, the translation of source
events to messages, and the application of messages to an input sink.
-/

namespace Kmwarp.Wire

open Foundation

def byteToMouseButton (byte : UInt8) : Option MouseButton :=
  if byte = MouseButtonCode.left then some .left
  else if byte = MouseButtonCode.right then some .right
  else if byte = MouseButtonCode.middle then some .middle
  else if byte = MouseButtonCode.x1 then some .x1
  else if byte = MouseButtonCode.x2 then some .x2
  else none

def mouseButtonToByte : MouseButton → UInt8
  | .left => MouseButtonCode.left
  | .right => MouseButtonCode.right
  | .middle => MouseButtonCode.middle
  | .x1 => MouseButtonCode.x1
  | .x2 => MouseButtonCode.x2

def byteToKeyState (byte : UInt8) : Option KeyState :=
  if byte = KeyStateCode.up then some .up
  else if byte = KeyStateCode.down then some .down
  else none

def keyStateToByte : KeyState → UInt8
  | .up => KeyStateCode.up
  | .down => KeyStateCode.down

@[simp] theorem byteToMouseButton_mouseButtonToByte (button : MouseButton) :
    byteToMouseButton (mouseButtonToByte button) = some button := by
  cases button <;> rfl

@[simp] theorem byteToKeyState_keyStateToByte (state : KeyState) :
    byteToKeyState (keyStateToByte state) = some state := by
  cases state <;> rfl

/-- A cursor position is a server-internal signal and has no message. -/
def sourceEventToMessage : SourceEvent → Option Message
  | .mouseRel dx dy => some (.mouseMoveRel dx dy)
  | .mouseButton button state =>
      some (.mouseButton (mouseButtonToByte button) (keyStateToByte state))
  | .mouseWheel dx dy => some (.mouseWheel dx dy)
  | .key hidUsage state mods =>
      some (.keyEvent hidUsage (keyStateToByte state) mods.toWire)
  | .cursorAt _ _ => none

def sourceEventToMessageRemapped (event : SourceEvent) (remap : ModRemap) :
    Option Message :=
  match event with
  | .key hidUsage state mods =>
      some (.keyEvent (remap.applyToHid hidUsage) (keyStateToByte state)
        (remap.applyToModmask mods).toWire)
  | other => sourceEventToMessage other

/-- Apply a key message to the sink, and say whether it was one.  An unknown
state byte is dropped. -/
def applyKeyToSink (msg : Message) (sink : List SinkCall) : Bool × List SinkCall :=
  match msg with
  | .keyEvent hidUsage state modifiers =>
      match byteToKeyState state with
      | some st => (true, sink ++ [.injectKey hidUsage st (.fromWire modifiers)])
      | none => (true, sink)
  | _ => (false, sink)

def applyMouseToSink (msg : Message) (sink : List SinkCall) : Bool × List SinkCall :=
  match msg with
  | .mouseMoveRel dx dy => (true, sink ++ [.injectMouseRel dx.toInt dy.toInt])
  | .mouseButton button state =>
      match byteToMouseButton button, byteToKeyState state with
      | some btn, some st => (true, sink ++ [.injectMouseButton btn st])
      | _, _ => (true, sink)
  | .mouseWheel dx dy => (true, sink ++ [.injectMouseWheel dx dy])
  | _ => (false, sink)

/-! ## Key logs -/

/-- The press or release a valid key message stands for. -/
def keyTransition : Message → Option (KeyTransition UInt16)
  | .keyEvent hidUsage state _ =>
      (byteToKeyState state).map fun st => ⟨hidUsage, st.isDown⟩
  | _ => none

/-- The presses and releases in a sequence of messages. -/
def keyLog (msgs : List Message) : List (KeyTransition UInt16) :=
  msgs.filterMap keyTransition

@[simp] theorem keyLog_nil : keyLog [] = [] := rfl

@[simp] theorem keyLog_cons (msg : Message) (msgs : List Message) :
    keyLog (msg :: msgs) = (keyTransition msg).toList ++ keyLog msgs := by
  cases transition : keyTransition msg <;> simp [keyLog, transition]

theorem keyLog_singleton (msg : Message) :
    keyLog [msg] = (keyTransition msg).toList := by
  simp

@[simp] theorem keyLog_append (first second : List Message) :
    keyLog (first ++ second) = keyLog first ++ keyLog second :=
  List.filterMap_append

/-- The press or release a call of `inject_key` performs. -/
def callTransition : SinkCall → Option (KeyTransition UInt16)
  | .injectKey hid state _ => some ⟨hid, state.isDown⟩
  | _ => none

/-- The presses and releases a sink has been asked to inject. -/
def callLog (sink : List SinkCall) : List (KeyTransition UInt16) :=
  sink.filterMap callTransition

@[simp] theorem callLog_append (first second : List SinkCall) :
    callLog (first ++ second) = callLog first ++ callLog second :=
  List.filterMap_append

/-- Messages that are not key events inject no key. -/
theorem callLog_applyMouseToSink (msg : Message) (sink : List SinkCall) :
    callLog (applyMouseToSink msg sink).2 = callLog sink := by
  cases msg
  case mouseButton button state =>
    rw [applyMouseToSink]
    cases byteToMouseButton button <;> cases byteToKeyState state <;>
      simp [callLog, callTransition]
  all_goals simp [applyMouseToSink, callLog, callTransition]

/-- A key message is injected as exactly the transition it stands for. -/
theorem callLog_applyKeyToSink (msg : Message) (sink : List SinkCall) :
    callLog (applyKeyToSink msg sink).2 = callLog sink ++ keyLog [msg] := by
  cases msg
  case keyEvent hidUsage state modifiers =>
    rw [applyKeyToSink]
    cases decoded : byteToKeyState state <;>
      simp [callLog, callTransition, keyTransition, decoded]
  all_goals simp [applyKeyToSink, keyTransition]

end Kmwarp.Wire
