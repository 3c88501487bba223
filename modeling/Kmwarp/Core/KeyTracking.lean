import Kmwarp.Core.StuckKeys
import Kmwarp.Core.Wire.Convert

/-!
# Tracking the keys of a message sequence

Both programs update their tracker from the state byte of each key message:
the server as it sends, the client as it dispatches.
-/

namespace Kmwarp

open Foundation Wire

/-- A press inserts the key, a release removes it, an unknown state byte does
nothing. -/
def HeldKeys.trackKey (held : HeldKeys) (msg : Message) : HeldKeys :=
  match msg with
  | .keyEvent hidUsage state _ =>
      if state = KeyStateCode.down then held.insert hidUsage
      else if state = KeyStateCode.up then held.remove hidUsage
      else held
  | _ => held

/-- The tracker holds exactly the keys left pressed by a log. -/
def HeldKeys.Tracks (held : HeldKeys) (log : List (KeyTransition UInt16)) : Prop :=
  ∀ hid, hid ∈ held ↔ Pressed log hid

namespace HeldKeys

theorem tracks_new : HeldKeys.new.Tracks [] := by
  intro hid
  simp

/-- The tracker reads a state byte as a sink does. -/
theorem mem_trackKey {held : HeldKeys} {msg : Message} {hid : UInt16} :
    hid ∈ held.trackKey msg ↔
      match keyTransition msg with
      | some transition =>
          if transition.key = hid then transition.down = true else hid ∈ held
      | none => hid ∈ held := by
  cases msg
  case keyEvent hidUsage state modifiers =>
    by_cases isDown : state = KeyStateCode.down
    · have event : keyTransition (.keyEvent hidUsage state modifiers) =
          some ⟨hidUsage, true⟩ := by
        rw [isDown]
        rfl
      simp only [trackKey, if_pos isDown, event, mem_insert]
      split <;> simp [*]
    · by_cases isUp : state = KeyStateCode.up
      · have event : keyTransition (.keyEvent hidUsage state modifiers) =
            some ⟨hidUsage, false⟩ := by
          rw [isUp]
          rfl
        simp only [trackKey, if_neg isDown, if_pos isUp, event, mem_remove]
        split <;> simp [*]
      · have event : keyTransition (.keyEvent hidUsage state modifiers) = none := by
          simp [keyTransition, byteToKeyState, isUp, isDown]
        simp only [trackKey, if_neg isDown, if_neg isUp, event]
  all_goals rfl

theorem tracks_trackKey {held : HeldKeys} {log : List (KeyTransition UInt16)}
    (tracks : held.Tracks log) (msg : Message) :
    (held.trackKey msg).Tracks (log ++ keyLog [msg]) := by
  intro hid
  rw [mem_trackKey, keyLog_singleton]
  cases keyTransition msg with
  | none => simpa using tracks hid
  | some transition =>
      rw [Option.toList_some, pressed_concat]
      simp only [tracks hid]

/-- Draining tracks the log in which every held key has been released. -/
theorem tracks_drain {held : HeldKeys} {log : List (KeyTransition UInt16)}
    (tracks : held.Tracks log) :
    held.drain.2.Tracks (log ++ releases held.drain.1) := by
  intro hid
  rw [pressed_append_releases, mem_drain, tracks hid]
  simp

end HeldKeys

end Kmwarp
