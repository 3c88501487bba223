import Kmwarp.Client.Pump

/-!
# No key is left down on the client

Before the drop, the tracker and the sink have seen the same key events.  The
drop releases exactly the keys whose last event was a press.
-/

namespace Kmwarp.Client

open Foundation Wire

/-- The frames the loop gets to: up to the first source error, and up to and
including the first `Bye`. -/
def dispatched : List (Except ClientError Message) → List Message
  | .ok msg :: source =>
      match msg with
      | .bye reasonCode => [.bye reasonCode]
      | msg => msg :: dispatched source
  | _ => []

/-- Running the loop keeps the tracker, never panics, and injects the key
events of the dispatched frames. -/
theorem injectorLoop_spec (env : InjectorEnv)
    (source : List (Except ClientError Message)) {session : Session}
    (tracked : session.guard.held.Tracks (callLog session.guard.sink)) :
    (∀ arm, (injectorLoop env source session).1 ≠ .panicked arm) ∧
      (injectorLoop env source session).2.guard.held.Tracks
        (callLog (injectorLoop env source session).2.guard.sink) ∧
      callLog (injectorLoop env source session).2.guard.sink =
        callLog session.guard.sink ++ keyLog (dispatched source) := by
  induction source generalizing session with
  | nil => exact ⟨by simp [injectorLoop], tracked, by simp [injectorLoop, dispatched]⟩
  | cons result source ih =>
      cases result with
      | error error =>
          exact ⟨by simp [injectorLoop], tracked, by simp [injectorLoop, dispatched]⟩
      | ok msg =>
          obtain ⟨next, stepped, dispatches⟩ := dispatchOne_spec env msg session
          have sink : callLog next.guard.sink = callLog session.guard.sink ++ keyLog [msg] := by
            rw [dispatches.sink, callLog_append, callLog_sinkCalls]
          have nextTracked : next.guard.held.Tracks (callLog next.guard.sink) := by
            rw [dispatches.held, sink]
            exact HeldKeys.tracks_trackKey tracked msg
          cases msg
          case bye reasonCode =>
            simp only [injectorLoop, stepped, dispatched]
            exact ⟨by simp, nextTracked, sink⟩
          all_goals
            simp only [injectorLoop, stepped, dispatched]
            obtain ⟨noPanic, lastTracked, log⟩ := ih nextTracked
            refine ⟨noPanic, lastTracked, ?_⟩
            rw [log, sink, List.append_assoc, ← keyLog_append, List.singleton_append]

/-- The drop appends one `Up` for every held key, in ascending order. -/
theorem sink_drop (guard : InjectorGuard) :
    guard.drop.sink =
      guard.sink ++ guard.held.drain.1.map fun hid => .injectKey hid .up {} := by
  by_cases empty : guard.held.isEmpty = true
  · have nothing := HeldKeys.drain_eq_nil_iff.mpr (HeldKeys.isEmpty_iff.mp empty)
    simp [InjectorGuard.drop, empty, nothing]
  · simp [InjectorGuard.drop, empty]

theorem callLog_ups (hids : List UInt16) :
    callLog (hids.map fun hid => .injectKey hid .up {}) = releases hids := by
  simp only [callLog, releases, List.filterMap_map, Function.comp_def,
    callTransition, KeyState.isDown_up]
  exact congrFun List.filterMap_eq_map' hids

/-- Whatever frames arrive and however the loop stops, the last call for every
key is an `Up`.  The drop makes exactly one call for each key whose last
dispatched event was a press, in ascending order, and no `unreachable!` arm is
reached. -/
theorem injector_leaves_no_key_down (env : InjectorEnv)
    (source : List (Except ClientError Message)) (echoGuard : EchoGuard)
    (txOut : Mailbox outboundChannelBound Message) (active : Bool)
    (statusTx : Option ClientStatus) :
    let finished := injectorLoopWithSource env source echoGuard txOut active statusTx
    (∀ hid, lastOf (callLog finished.dropped.sink) hid ≠ some true) ∧
      (∃ hids : List UInt16,
        finished.dropped.sink =
            finished.session.guard.sink ++
              hids.map (fun hid => .injectKey hid .up {}) ∧
          hids.Pairwise (· < ·) ∧
          ∀ hid, hid ∈ hids ↔ lastOf (keyLog (dispatched source)) hid = some true) ∧
      ∀ arm, finished.exit ≠ .panicked arm := by
  intro finished
  let start : Session := ⟨.new echoGuard, txOut, active, statusTx⟩
  have fresh : start.guard.held.Tracks (callLog start.guard.sink) :=
    HeldKeys.tracks_new
  obtain ⟨noPanic, tracked, log⟩ := injectorLoop_spec env source fresh
  have sink : finished.dropped.sink = _ := sink_drop finished.session.guard
  have held : ∀ hid, hid ∈ finished.session.guard.held.drain.1 ↔
      Pressed (callLog finished.session.guard.sink) hid := fun hid =>
    HeldKeys.mem_drain.trans (tracked hid)
  refine ⟨fun hid pressed => ?_, ⟨_, sink, HeldKeys.drain_ascending _, fun hid => ?_⟩,
    noPanic⟩
  · rw [sink, callLog_append, callLog_ups] at pressed
    obtain ⟨down, absent⟩ := (pressed_append_releases _ _ _).mp pressed
    exact absent ((held hid).mpr down)
  · rw [held hid]
    have fromFrames : callLog finished.session.guard.sink =
        keyLog (dispatched source) := log
    rw [fromFrames]
    rfl

end Kmwarp.Client
