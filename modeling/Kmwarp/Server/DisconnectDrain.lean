import Kmwarp.Server.Console
import Kmwarp.Server.HeldTracking

/-!
# The disconnect drain

After the first task has exited, `handle_peer` takes the held keys out of the tracker
and sends their releases one by one.  The brain runs on until it is aborted, so it can
press a key again behind the drain.
-/

namespace Kmwarp.Server

open Foundation Wire

/-- How far `handle_peer` is: the releases still to be sent, and whether the tasks have
been aborted. -/
inductive DrainPhase where
  | running
  | draining (hids : List UInt16)
  | aborting
deriving DecidableEq

/-- `accepted` is what the outbound channel has taken, which is everything. -/
structure Disconnect where
  console : Console
  accepted : List Message
  phase : DrainPhase

inductive DisconnectLabel where
  | console (label : ConsoleLabel)
  | drainTracker
  | sendRelease
  | abortAll
deriving DecidableEq

/-- What a step of the console enqueues. -/
def Console.enqueued (console : Console) (label : ConsoleLabel) : List Message :=
  match label, console.effects with
  | .effect, effect :: _ => effect.sent?.toList
  | _, _ => []

namespace Disconnect

def start (env : BrainEnv) (history : List (KeyTransition UInt16)) : Disconnect :=
  ⟨.start env history, [], .running⟩

/-- An aborted brain performs what it has begun and receives nothing more. -/
def mayStep (phase : DrainPhase) : ConsoleLabel → Bool
  | .receive _ => phase != .aborting
  | _ => true

def step (env : BrainEnv) (disconnect : Disconnect) :
    DisconnectLabel → Option Disconnect
  | .console label =>
      if mayStep disconnect.phase label then
        (disconnect.console.step env label).map fun console =>
          { disconnect with
            console := console
            accepted := disconnect.accepted ++ disconnect.console.enqueued label }
      else none
  | .drainTracker =>
      match disconnect.phase with
      | .running =>
          let console := disconnect.console
          let (hids, held) := console.brain.held.drain
          some { disconnect with
            console := { console with brain := { console.brain with held := held } }
            phase := .draining hids }
      | _ => none
  | .sendRelease =>
      match disconnect.phase with
      | .draining (hid :: hids) =>
          some { disconnect with
            accepted := disconnect.accepted ++ [releaseMessage hid]
            phase := .draining hids }
      | _ => none
  | .abortAll =>
      match disconnect.phase with
      | .draining [] => some { disconnect with phase := .aborting }
      | _ => none

/-- Once the tasks have been aborted, no key is left down by what the channel took. -/
def Released (disconnect : Disconnect) : Prop :=
  disconnect.phase = .aborting → ∀ hid, ¬ Pressed (keyLog disconnect.accepted) hid

/-- A press at this point is followed by a release of the drain. -/
def Releases (phase : DrainPhase) (hid : UInt16) : Prop :=
  match phase with
  | .running => True
  | .draining hids => hid ∈ hids
  | .aborting => False

instance (phase : DrainPhase) (hid : UInt16) : Decidable (Releases phase hid) :=
  match phase with
  | .running => isTrue trivial
  | .draining hids => inferInstanceAs (Decidable (hid ∈ hids))
  | .aborting => isFalse id

/-- Behind the drain of the tracker a key is enqueued down only before the release of
this key, and the brain is aborted with no release taken off the tracker and not yet
enqueued, unless the channel has had a release of the key since it went down. -/
def PressesBeforeRelease (disconnect : Disconnect) : DisconnectLabel → Prop
  | .console label =>
      ∀ transition ∈ keyLog (disconnect.console.enqueued label),
        transition.down = true → Releases disconnect.phase transition.key
  | .abortAll =>
      ∀ transition ∈ keyLog (sends disconnect.console.effects), transition.down = false →
        ¬ Pressed (keyLog disconnect.accepted) transition.key
  | _ => True

instance (disconnect : Disconnect) (label : DisconnectLabel) :
    Decidable (disconnect.PressesBeforeRelease label) :=
  match label with
  | .console _ => inferInstanceAs (Decidable (∀ _ ∈ _, _))
  | .abortAll => inferInstanceAs (Decidable (∀ _ ∈ _, _))
  | .drainTracker | .sendRelease => isTrue trivial

end Disconnect

/-! ## Who releases a key -/

/-- A step either enqueues from the front of the effects and leaves the tracker alone,
or executes an action with none to be performed. -/
theorem Console.sends_step {env : BrainEnv} {console next : Console} {label : ConsoleLabel}
    (stepped : console.step env label = some next) :
    (console.enqueued label ++ sends next.effects = sends console.effects ∧
        next.brain.held = console.brain.held) ∨
      (console.enqueued label = [] ∧ sends console.effects = [] ∧ ∃ action,
        (next.brain.held, next.effects) =
          executeAction env.remote env.modRemap console.brain.held action) := by
  cases label with
  | perform =>
      obtain ⟨noEffects, action, _, _, rfl⟩ := step_perform stepped
      exact .inr ⟨rfl, by rw [noEffects, sends_nil], action, rfl⟩
  | effect =>
      obtain ⟨effect, effects, split, rfl⟩ := step_effect stepped
      obtain ⟨swallow, applied⟩ := apply_eq { console with effects := effects } effect
      refine .inl ⟨?_, by rw [applied]⟩
      simp only [enqueued, split, applied, sends_cons]
  | receive nowMs =>
      obtain ⟨_, noEffects, input, _, _, rfl⟩ := step_receive stepped
      exact .inl ⟨rfl, (console.brain.received env input nowMs).sameHeld⟩
  | tapSend | tapReturn | forwardSource | wireMessage =>
      obtain ⟨sameBrain, _, sameEffects⟩ := step_frame rfl stepped
      exact .inl ⟨by rw [sameEffects]; rfl, by rw [sameBrain]⟩

namespace Disconnect

/-- The tracker accounts for the keys left down once the effects have been performed;
after it has been drained a key left down is released by the drain or by an effect. -/
def Sound (disconnect : Disconnect) : Prop :=
  let log := keyLog disconnect.accepted
  let pending := keyLog (sends disconnect.console.effects)
  match disconnect.phase with
  | .running => disconnect.console.brain.held.Tracks (log ++ pending)
  | .draining hids => ∀ hid, Pressed log hid → hid ∈ hids ∨ ⟨hid, false⟩ ∈ pending
  | .aborting => ∀ hid, ¬ Pressed log hid

theorem sound_start (env : BrainEnv) (history : List (KeyTransition UInt16)) :
    Sound (start env history) :=
  HeldKeys.tracks_new

variable {env : BrainEnv} {disconnect next : Disconnect}

theorem step_console {label : ConsoleLabel}
    (stepped : disconnect.step env (.console label) = some next) :
    ∃ console, disconnect.console.step env label = some console ∧
      next = { disconnect with
        console := console
        accepted := disconnect.accepted ++ disconnect.console.enqueued label } := by
  simp only [step, Option.ite_none_right_eq_some, Option.map_eq_some_iff] at stepped
  obtain ⟨_, console, moved, rfl⟩ := stepped
  exact ⟨console, moved, rfl⟩

/-- A key left down by a step was left down before it and not touched, or is pressed by
the step, which is then followed by its release. -/
theorem pressed_console {label : ConsoleLabel} {hid : UInt16}
    (allowed : disconnect.PressesBeforeRelease (.console label))
    (pressed :
      Pressed (keyLog (disconnect.accepted ++ disconnect.console.enqueued label)) hid) :
    Releases disconnect.phase hid ∨ Pressed (keyLog disconnect.accepted) hid ∧
      ⟨hid, false⟩ ∉ keyLog (disconnect.console.enqueued label) := by
  rw [keyLog_append] at pressed
  rcases pressed_append_cases pressed with isPressed | ⟨before, untouched⟩
  · exact .inl (allowed _ isPressed rfl)
  · exact .inr ⟨before, fun isReleased => untouched _ isReleased rfl⟩

theorem sound_console {label : ConsoleLabel} (sound : Sound disconnect)
    (allowed : disconnect.PressesBeforeRelease (.console label))
    (stepped : disconnect.step env (.console label) = some next) : Sound next := by
  obtain ⟨console, moved, rfl⟩ := step_console stepped
  have source := fun hid => @pressed_console disconnect label hid allowed
  have effects := Console.sends_step moved
  cases phase : disconnect.phase with
  | running =>
      simp only [Sound, phase] at sound ⊢
      rcases effects with ⟨split, sameHeld⟩ | ⟨enqueued, noEffects, action, executed⟩
      · rw [sameHeld, keyLog_append, List.append_assoc, ← keyLog_append, split]
        exact sound
      · obtain ⟨held, performed⟩ := Prod.mk.inj executed
        rw [noEffects, keyLog_nil, List.append_nil] at sound
        rw [enqueued, List.append_nil, held, performed]
        exact tracks_executeAction sound _ _ action
  | draining hids =>
      simp only [Sound, phase] at sound source ⊢
      intro hid pressed
      rcases source hid pressed with released | ⟨before, untouched⟩
      · exact .inl released
      · rcases effects with ⟨split, _⟩ | ⟨_, noEffects, _⟩
        · rw [← split, keyLog_append] at sound
          refine (sound hid before).imp_right fun pending => ?_
          exact (List.mem_append.mp pending).resolve_left untouched
        · rw [noEffects] at sound
          exact .inl ((sound hid before).resolve_right List.not_mem_nil)
  | aborting =>
      simp only [Sound, phase] at sound source ⊢
      intro hid pressed
      rcases source hid pressed with released | ⟨before, _⟩
      · exact released
      · exact sound hid before

theorem sound_step {label : DisconnectLabel} (sound : Sound disconnect)
    (allowed : disconnect.PressesBeforeRelease label)
    (stepped : disconnect.step env label = some next) : Sound next := by
  cases label with
  | console label => exact sound_console sound allowed stepped
  | drainTracker =>
      cases phase : disconnect.phase with
      | draining | aborting => simp [step, phase] at stepped
      | running =>
          simp only [step, phase, Option.some.injEq] at stepped
          subst stepped
          simp only [Sound, phase] at sound ⊢
          intro hid pressed
          by_cases stays : Pressed (keyLog disconnect.accepted ++
              keyLog (sends disconnect.console.effects)) hid
          · exact .inl (HeldKeys.mem_drain.mpr ((sound hid).mpr stays))
          · exact .inr (release_mem_of_pressed pressed stays)
  | sendRelease =>
      cases phase : disconnect.phase with
      | running | aborting => simp [step, phase] at stepped
      | draining hids =>
          cases hids with
          | nil => simp [step, phase] at stepped
          | cons released hids =>
              simp only [step, phase, Option.some.injEq] at stepped
              subst stepped
              have isRelease : keyLog [releaseMessage released] = [⟨released, false⟩] := rfl
              simp only [Sound, phase, keyLog_append, isRelease] at sound ⊢
              intro hid pressed
              rw [pressed_concat] at pressed
              split at pressed
              · cases pressed
              · rename_i other
                refine (sound hid pressed).imp_left fun member => ?_
                exact (List.mem_cons.mp member).resolve_left (Ne.symm other)
  | abortAll =>
      cases phase : disconnect.phase with
      | running | aborting => simp [step, phase] at stepped
      | draining hids =>
          cases hids with
          | cons => simp [step, phase] at stepped
          | nil =>
              simp only [step, phase, Option.some.injEq] at stepped
              subst stepped
              simp only [Sound, phase] at sound ⊢
              intro hid pressed
              rcases sound hid pressed with member | inFlight
              · cases member
              · exact absurd pressed (allowed _ inFlight rfl)

theorem released_of_sound (sound : Sound disconnect) : disconnect.Released := by
  intro aborting
  simpa only [Sound, aborting] using sound

end Disconnect

/-- In every interleaving in which the brain presses no key behind its release by the
drain and is not aborted with the only release of a key on its way, all keys have been
released when the tasks are aborted, and stay so. -/
theorem released_of_pressesBeforeRelease (env : BrainEnv)
    (history : List (KeyTransition UInt16)) (labels : List DisconnectLabel)
    (along : Along (Disconnect.step env) Disconnect.PressesBeforeRelease
      (.start env history) labels) :
    Throughout (Disconnect.step env) Disconnect.Released (.start env history) labels :=
  (throughout_of_along (fun _ _ _ => Disconnect.sound_step)
    (Disconnect.sound_start env history) along).mono fun _ => Disconnect.released_of_sound

def onDisconnect (labels : List ConsoleLabel) : List DisconnectLabel :=
  labels.map .console

/-- The A key goes down behind the crossing and is forwarded. -/
def pressA (nowMs : Nat) : List ConsoleLabel :=
  captureIgnored { etype := EventType.keyDown } nowMs ++ [.perform, .effect]

/-- The A key is held when the tracker is drained, and repeats once before its release
is sent. -/
def repeatBeforeRelease : List DisconnectLabel :=
  onDisconnect (cross 100 ++ pressA 150) ++ [.drainTracker] ++ onDisconnect (pressA 200) ++
    [.sendRelease, .abortAll]

def Disconnect.outcome (disconnect : Disconnect) : DrainPhase × List Message :=
  (disconnect.phase, disconnect.accepted)

theorem released_of_pressesBeforeRelease_repeat :
    ∃ final, exec (Disconnect.step singleDisplay) (.start singleDisplay [])
        repeatBeforeRelease = some final ∧
      final.outcome = (.aborting, [.takeControl 300, .keyEvent 0x04 KeyStateCode.down 0,
        .keyEvent 0x04 KeyStateCode.down 0, .keyEvent 0x04 KeyStateCode.up 0]) ∧
      ∀ hid, ¬ Pressed (keyLog final.accepted) hid := by
  have run : (exec (Disconnect.step singleDisplay) (.start singleDisplay [])
      repeatBeforeRelease).map Disconnect.outcome =
        some (.aborting, [.takeControl 300, .keyEvent 0x04 KeyStateCode.down 0,
          .keyEvent 0x04 KeyStateCode.down 0, .keyEvent 0x04 KeyStateCode.up 0]) := by
    decide
  obtain ⟨final, reached, outcome⟩ := Option.map_eq_some_iff.mp run
  have released := final_of_throughout
    (released_of_pressesBeforeRelease singleDisplay [] repeatBeforeRelease (by decide)) reached
  exact ⟨final, reached, outcome, released (Prod.mk.inj outcome).1⟩

/-- The A key goes down when the tracker has been drained. -/
def pressBehindDrain : List DisconnectLabel :=
  onDisconnect (cross 100) ++ [.drainTracker] ++ onDisconnect (pressA 150) ++ [.abortAll]

/-- The A key is left down on the peer. -/
theorem not_released_pressBehindDrain :
    ¬ ∀ labels, Throughout (Disconnect.step singleDisplay) Disconnect.Released
      (.start singleDisplay []) labels := by
  intro always
  have run : (exec (Disconnect.step singleDisplay) (.start singleDisplay [])
      pressBehindDrain).map Disconnect.outcome =
        some (.aborting, [.takeControl 300, .keyEvent 0x04 KeyStateCode.down 0]) := by
    decide
  obtain ⟨final, reached, outcome⟩ := Option.map_eq_some_iff.mp run
  obtain ⟨aborting, accepted⟩ := Prod.mk.inj outcome
  have released : final.Released := final_of_throughout (always _) reached
  refine released aborting 0x04 ?_
  rw [accepted]
  decide

end Kmwarp.Server
