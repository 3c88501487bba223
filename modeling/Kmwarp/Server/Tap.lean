import Kmwarp.Core.Hid
import Kmwarp.Core.Platform
import Kmwarp.Foundation.KeyLog

/-!
# macOS event tap

The tap callback translates an event for the brain and then passes it to the
local system, or swallows it when the swallow flag is set.
-/

namespace Kmwarp.Server

open Foundation

namespace EventType

def leftMouseDown : UInt32 := 1

def leftMouseUp : UInt32 := 2

def rightMouseDown : UInt32 := 3

def rightMouseUp : UInt32 := 4

def mouseMoved : UInt32 := 5

def leftMouseDragged : UInt32 := 6

def rightMouseDragged : UInt32 := 7

def keyDown : UInt32 := 10

def keyUp : UInt32 := 11

def flagsChanged : UInt32 := 12

def scrollWheel : UInt32 := 22

def otherMouseDown : UInt32 := 25

def otherMouseUp : UInt32 := 26

def otherMouseDragged : UInt32 := 27

def tapDisabledByTimeout : UInt32 := 0xFFFFFFFE

def tapDisabledByUserInput : UInt32 := 0xFFFFFFFF

end EventType

namespace EventFlags

def shift : UInt64 := 0x00020000

def control : UInt64 := 0x00040000

def alternate : UInt64 := 0x00080000

def command : UInt64 := 0x00100000

def contains (flags flag : UInt64) : Bool :=
  flags &&& flag == flag

end EventFlags

/-- The fields of a `CGEvent` that the tap reads.  The location is in whole
points. -/
structure TapEvent where
  etype : UInt32
  keycode : Int64 := 0
  autorepeat : Int64 := 0
  deltaX : Int64 := 0
  deltaY : Int64 := 0
  scrollAxis1 : Int64 := 0
  scrollAxis2 : Int64 := 0
  buttonNumber : Int64 := 0
  flags : UInt64 := 0
  location : Int × Int := (0, 0)
deriving DecidableEq

/-- The `as u16` of the keycode field. -/
def TapEvent.vk (event : TapEvent) : UInt16 :=
  event.keycode.toUInt64.toUInt16

def isMouseMotion (etype : UInt32) : Bool :=
  etype = EventType.mouseMoved || etype = EventType.leftMouseDragged ||
    etype = EventType.rightMouseDragged || etype = EventType.otherMouseDragged

def isSwallowable (etype : UInt32) : Bool :=
  etype = EventType.mouseMoved || etype = EventType.leftMouseDragged ||
    etype = EventType.rightMouseDragged || etype = EventType.otherMouseDragged ||
    etype = EventType.leftMouseDown || etype = EventType.leftMouseUp ||
    etype = EventType.rightMouseDown || etype = EventType.rightMouseUp ||
    etype = EventType.otherMouseDown || etype = EventType.otherMouseUp ||
    etype = EventType.scrollWheel || etype = EventType.keyDown ||
    etype = EventType.keyUp || etype = EventType.flagsChanged

/-- The bit of each tracked modifier in the held bitmap. -/
def modBit (vk : UInt16) : Option UInt32 :=
  if vk = 0x38 then some 0
  else if vk = 0x3C then some 1
  else if vk = 0x3B then some 2
  else if vk = 0x3E then some 3
  else if vk = 0x3A then some 4
  else if vk = 0x3D then some 5
  else if vk = 0x37 then some 6
  else if vk = 0x36 then some 7
  else if vk = 0x39 then some 8
  else none

def modsFromFlags (flags : UInt64) : ModMask :=
  let m : ModMask := {}
  let m := if EventFlags.contains flags EventFlags.shift then m.insert .shift else m
  let m := if EventFlags.contains flags EventFlags.control then m.insert .ctrl else m
  let m := if EventFlags.contains flags EventFlags.alternate then m.insert .alt else m
  if EventFlags.contains flags EventFlags.command then m.insert .metaKey else m

def otherButton (event : TapEvent) : MouseButton :=
  if event.buttonNumber = 0 then .left
  else if event.buttonNumber = 1 then .right
  else if event.buttonNumber = 2 then .middle
  else if event.buttonNumber = 3 then .x1
  else .x2

/-- Saturating `i64` to `i16`. -/
def clampI64ToI16 (value : Int64) : Int16 :=
  Int16.ofInt (max (-32768) (min value.toInt 32767))

/-- Autorepeats and unmapped keys have no event. -/
def translateKey (event : TapEvent) (state : KeyState) : Option SourceEvent :=
  if state = .down ∧ event.autorepeat ≠ 0 then none
  else
    match macosToHid event.vk with
    | some hid => some (.key hid state (modsFromFlags event.flags))
    | none => none

/-- A change of flags carries no direction; the bitmap of held modifiers
supplies it. -/
def translateFlagsChanged (event : TapEvent) (heldMods : UInt32) :
    Option SourceEvent × UInt32 :=
  match modBit event.vk with
  | none => (none, heldMods)
  | some bitIdx =>
      let bit : UInt32 := 1 <<< bitIdx
      let wasHeld := heldMods &&& bit != 0
      let heldMods := heldMods ^^^ bit
      let state : KeyState := if wasHeld then .up else .down
      match macosToHid event.vk with
      | none => (none, heldMods)
      | some hid => (some (.key hid state (modsFromFlags event.flags)), heldMods)

def translate (event : TapEvent) (heldMods : UInt32) : Option SourceEvent × UInt32 :=
  if isMouseMotion event.etype then
    (some (.mouseRel (clampI64ToI16 event.deltaX) (clampI64ToI16 event.deltaY)), heldMods)
  else if event.etype = EventType.leftMouseDown then
    (some (.mouseButton .left .down), heldMods)
  else if event.etype = EventType.leftMouseUp then
    (some (.mouseButton .left .up), heldMods)
  else if event.etype = EventType.rightMouseDown then
    (some (.mouseButton .right .down), heldMods)
  else if event.etype = EventType.rightMouseUp then
    (some (.mouseButton .right .up), heldMods)
  else if event.etype = EventType.otherMouseDown then
    (some (.mouseButton (otherButton event) .down), heldMods)
  else if event.etype = EventType.otherMouseUp then
    (some (.mouseButton (otherButton event) .up), heldMods)
  else if event.etype = EventType.scrollWheel then
    (some (.mouseWheel (clampI64ToI16 event.scrollAxis2)
      (clampI64ToI16 event.scrollAxis1)), heldMods)
  else if event.etype = EventType.keyDown then (translateKey event .down, heldMods)
  else if event.etype = EventType.keyUp then (translateKey event .up, heldMods)
  else if event.etype = EventType.flagsChanged then translateFlagsChanged event heldMods
  else (none, heldMods)

def isTapDisabled (etype : UInt32) : Bool :=
  etype = EventType.tapDisabledByTimeout || etype = EventType.tapDisabledByUserInput

/-- First half of `cb_thunk`: what it sends to the brain, and the modifier
bitmap after it. -/
def cbThunkSend (event : TapEvent) (heldMods : UInt32) : List SourceEvent × UInt32 :=
  if isTapDisabled event.etype then ([], heldMods)
  else
    let (translated, heldMods) := translate event heldMods
    let cursor :=
      if isMouseMotion event.etype then
        [SourceEvent.cursorAt event.location.1 event.location.2]
      else []
    (translated.toList ++ cursor, heldMods)

/-- Second half of `cb_thunk`: whether the event goes on to the local system. -/
def cbThunkPasses (event : TapEvent) (swallow : Bool) : Bool :=
  if isTapDisabled event.etype then true
  else !(swallow && isSwallowable event.etype)

/-- The press or release of a physical key that an event reports, after the
given presses and releases.  A change of flags toggles its key. -/
def physicalTransition (physical : List (KeyTransition UInt16)) (event : TapEvent) :
    Option (KeyTransition UInt16) :=
  if event.etype = EventType.keyDown then some ⟨event.vk, true⟩
  else if event.etype = EventType.keyUp then some ⟨event.vk, false⟩
  else if event.etype = EventType.flagsChanged then
    some ⟨event.vk, !decide (Pressed physical event.vk)⟩
  else none

/-- Key events are swallowed whenever the flag is set, and pass otherwise. -/
theorem cbThunkPasses_of_transition {physical : List (KeyTransition UInt16)}
    {event : TapEvent} {transition : KeyTransition UInt16}
    (isKey : physicalTransition physical event = some transition) (swallow : Bool) :
    cbThunkPasses event swallow = !swallow := by
  unfold physicalTransition at isKey
  split at isKey
  · rename_i keyDown
    simp [cbThunkPasses, keyDown, isTapDisabled, isSwallowable, EventType.keyDown,
      EventType.tapDisabledByTimeout, EventType.tapDisabledByUserInput]
  · split at isKey
    · rename_i keyUp
      simp [cbThunkPasses, keyUp, isTapDisabled, isSwallowable, EventType.keyUp,
        EventType.tapDisabledByTimeout, EventType.tapDisabledByUserInput]
    · split at isKey
      · rename_i flagsChanged
        simp [cbThunkPasses, flagsChanged, isTapDisabled, isSwallowable,
          EventType.flagsChanged, EventType.tapDisabledByTimeout,
          EventType.tapDisabledByUserInput]
      · cases isKey

end Kmwarp.Server
