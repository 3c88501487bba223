import Kmwarp.Server.Forwarding

/-!
# Held keys under the remap

Two modifiers can share a target.  In the modifier byte their bits are combined by OR,
but the release of one of the two keys is forwarded as the release of the target.
-/

namespace Kmwarp.Server

open Foundation Wire

structure KeyInput where
  hidUsage : UInt16
  state : KeyState
  mods : ModMask
  nowMs : Nat

def KeyInput.event (input : KeyInput) : SourceEvent :=
  .key input.hidUsage input.state input.mods

/-- The key events of the user, and the messages they were forwarded as. -/
structure KeyRun where
  brain : Brain
  physical : List (KeyTransition UInt16)
  forwarded : List Message

namespace KeyRun

def start (brain : Brain) : KeyRun :=
  ⟨brain, [], []⟩

/-- Only a key that is up can go down, and only one that is down can go up. -/
def step (env : BrainEnv) (run : KeyRun) (input : KeyInput) : Option KeyRun :=
  if Pressed run.physical input.hidUsage ↔ input.state = .up then
    let (brain, effects) := run.brain.step env (.source input.event) input.nowMs
    some ⟨brain, run.physical ++ [⟨input.hidUsage, input.state.isDown⟩],
      run.forwarded ++ sends effects⟩
  else none

/-- The peer holds the targets of the keys the user holds. -/
def PeerHoldsTargets (env : BrainEnv) (run : KeyRun) : Prop :=
  PressesImage env.modRemap.applyToHid run.physical (keyLog run.forwarded)

/-- A key is not released while another held key has its target. -/
def ReleasesLastOnTarget (env : BrainEnv) (run : KeyRun) (input : KeyInput) : Prop :=
  input.state = .up → ∀ key, Pressed run.physical key →
    env.modRemap.applyToHid key = env.modRemap.applyToHid input.hidUsage →
      key = input.hidUsage

instance (env : BrainEnv) (run : KeyRun) (input : KeyInput) :
    Decidable (run.ReleasesLastOnTarget env input) :=
  inferInstanceAs (Decidable (_ → _))

variable {env : BrainEnv} {run next : KeyRun} {input : KeyInput}

/-- Each key event is forwarded with its state, under its target. -/
theorem step_of_remote (isRemote : run.brain.sm.state = .remoteActive)
    (stepped : run.step env input = some next) :
    next.brain.sm.state = .remoteActive ∧
      next.physical = run.physical ++ [⟨input.hidUsage, input.state.isDown⟩] ∧
      keyLog next.forwarded = keyLog run.forwarded ++
        [⟨env.modRemap.applyToHid input.hidUsage, input.state.isDown⟩] := by
  have converted : sourceEventToMessage input.event =
      some (.keyEvent input.hidUsage (keyStateToByte input.state) input.mods.toWire) := rfl
  simp only [step, run.brain.step_of_remote env isRemote converted] at stepped
  split at stepped
  · cases stepped
    refine ⟨isRemote, rfl, ?_⟩
    simp [Effect.sent?, remapKeyMessage, keyTransition]
  · cases stepped

theorem peerHoldsTargets_step_iff (isRemote : run.brain.sm.state = .remoteActive)
    (holds : run.PeerHoldsTargets env) (stepped : run.step env input = some next) :
    next.PeerHoldsTargets env ↔ run.ReleasesLastOnTarget env input := by
  obtain ⟨_, physical, forwarded⟩ := step_of_remote isRemote stepped
  rw [PeerHoldsTargets, physical, forwarded, ReleasesLastOnTarget]
  cases input.state with
  | down => exact iff_of_true (holds.press input.hidUsage) nofun
  | up =>
      simp only [forall_const]
      exact holds.release_iff input.hidUsage

end KeyRun

/-- While the peer is active and from nothing held, the peer holds the targets of the
held keys after every event if and only if no key is released while another held key
shares its target. -/
theorem peerHoldsTargets_iff_releasesLastOnTarget (env : BrainEnv) (brain : Brain)
    (isRemote : brain.sm.state = .remoteActive) (inputs : List KeyInput) :
    Throughout (KeyRun.step env) (KeyRun.PeerHoldsTargets env) (.start brain) inputs ↔
      Along (KeyRun.step env) (KeyRun.ReleasesLastOnTarget env) (.start brain) inputs :=
  throughout_iff_along
    (fun _ _ _ isRemote stepped => (KeyRun.step_of_remote isRemote stepped).1)
    (fun _ _ _ => KeyRun.peerHoldsTargets_step_iff) isRemote
    (fun name => by simp [KeyRun.start])

/-- The brain after crossing on the single display. -/
def crossedBrain : Brain :=
  ((Brain.new singleDisplay).step singleDisplay (.source (.cursorAt 1919 300)) 100).1

/-- Cmd+C, with C released before Cmd. -/
def copyChord : List KeyInput :=
  [⟨Usage.leftGui, .down, .metaKey, 110⟩, ⟨0x06, .down, .metaKey, 120⟩,
    ⟨0x06, .up, .metaKey, 130⟩, ⟨Usage.leftGui, .up, {}, 140⟩]

/-- A chord whose keys have different targets is held correctly at every moment. -/
theorem peerHoldsTargets_copyChord :
    Throughout (KeyRun.step singleDisplay) (KeyRun.PeerHoldsTargets singleDisplay)
      (.start crossedBrain) copyChord := by
  refine (peerHoldsTargets_iff_releasesLastOnTarget singleDisplay crossedBrain (by decide)
    copyChord).mpr ?_
  decide

/-- Left Ctrl and left Cmd, which both arrive as left Ctrl, and the release of Cmd. -/
def ctrlAndCmd : List KeyInput :=
  [⟨Usage.leftCtrl, .down, .ctrl, 110⟩,
    ⟨Usage.leftGui, .down, ModMask.ctrl.insert .metaKey, 120⟩,
    ⟨Usage.leftGui, .up, .ctrl, 130⟩]

/-- The peer has released Ctrl, which the user holds and whose bit the last message
carries. -/
theorem not_peerHoldsTargets_ctrlAndCmd :
    ¬ ∀ inputs, Throughout (KeyRun.step singleDisplay) (KeyRun.PeerHoldsTargets singleDisplay)
      (.start crossedBrain) inputs := by
  intro always
  have ended : (exec (KeyRun.step singleDisplay) (.start crossedBrain) ctrlAndCmd).map
      (fun run => (run.physical, run.forwarded)) =
        some ([⟨Usage.leftCtrl, true⟩, ⟨Usage.leftGui, true⟩, ⟨Usage.leftGui, false⟩],
          [.keyEvent Usage.leftCtrl KeyStateCode.down 2,
            .keyEvent Usage.leftCtrl KeyStateCode.down 2,
            .keyEvent Usage.leftCtrl KeyStateCode.up 2]) := by
    decide
  obtain ⟨final, reached, logs⟩ := Option.map_eq_some_iff.mp ended
  obtain ⟨physical, forwarded⟩ := Prod.mk.inj logs
  have holds : final.PeerHoldsTargets singleDisplay := final_of_throughout (always _) reached
  rw [KeyRun.PeerHoldsTargets, physical, forwarded] at holds
  have released : Pressed _ Usage.leftCtrl :=
    (holds Usage.leftCtrl).mpr ⟨Usage.leftCtrl, by decide, rfl⟩
  revert released
  decide

end Kmwarp.Server
