import Kmwarp.Core.ModifierLayers
import Kmwarp.Server.RemappedKeys

/-!
# Chord bytes and held keys

The peer is told of the held modifiers twice: by the key events it has received, and by the
chord byte of every key event.
-/

namespace Kmwarp.Server

open Foundation Wire

namespace KeyRun

variable {env : BrainEnv} {run next : KeyRun} {input : KeyInput}

/-- The flags of the event are those of the keys that are held once it has happened. -/
def FlagsShowHeld (run : KeyRun) (input : KeyInput) : Prop :=
  input.mods.Shows (Pressed (run.physical ++ [⟨input.hidUsage, input.state.isDown⟩]))

/-- The chord byte of the last message shows the keys that the peer holds. -/
def ChordShowsHeld (run : KeyRun) : Prop :=
  ∃ hidUsage state modifiers,
    run.forwarded.getLast? = some (.keyEvent hidUsage state modifiers) ∧
      (ModMask.fromWire modifiers).Shows (Pressed (keyLog run.forwarded))

/-- The bits survive the wire. -/
theorem shows_fromWire_toWire {mask : ModMask} {held : UInt16 → Prop}
    (shows : mask.Shows held) : (ModMask.fromWire mask.toWire).Shows held := by
  intro modifier single
  have isDefined : ModMask.definedBits &&& modifier.bits = modifier.bits := by
    simp only [ModMask.singles, List.mem_cons, List.not_mem_nil, or_false] at single
    rcases single with rfl | rfl | rfl | rfl <;> rfl
  rw [ModRemap.contains_fromWire_toWire mask isDefined]
  exact shows modifier single

theorem forwarded_of_remote (isRemote : run.brain.sm.state = .remoteActive)
    (stepped : run.step env input = some next) :
    next.forwarded = run.forwarded ++
      [.keyEvent (env.modRemap.applyToHid input.hidUsage) (keyStateToByte input.state)
        (env.modRemap.applyToModmask input.mods).toWire] := by
  have converted : sourceEventToMessage input.event =
      some (.keyEvent input.hidUsage (keyStateToByte input.state) input.mods.toWire) := rfl
  simp only [step, run.brain.step_of_remote env isRemote converted] at stepped
  obtain ⟨_, taken⟩ := Option.ite_none_right_eq_some.mp stepped
  cases taken
  simp [Effect.sent?, remapKeyMessage, ModRemap.applyToModmask_fromWire_toWire]

/-- A chord byte made from truthful flags is truthful about the peer's keys too. -/
theorem chordShowsHeld_step (isRemote : run.brain.sm.state = .remoteActive)
    (flags : run.FlagsShowHeld input) (stepped : run.step env input = some next)
    (holds : next.PeerHoldsTargets env) : next.ChordShowsHeld := by
  have forwarded := forwarded_of_remote isRemote stepped
  have physical := (step_of_remote isRemote stepped).2.1
  refine ⟨env.modRemap.applyToHid input.hidUsage, keyStateToByte input.state,
    (env.modRemap.applyToModmask input.mods).toWire, ?_, ?_⟩
  · rw [forwarded, List.getLast?_concat]
  · apply shows_fromWire_toWire
    have targets := env.modRemap.shows_applyToModmask flags
    rw [← physical] at targets
    intro modifier single
    rw [targets modifier single]
    exact exists_congr fun name => and_congr_left fun _ => (holds name).symm

theorem chords_along {inputs : List KeyInput}
    (isRemote : run.brain.sm.state = .remoteActive) (holds : run.PeerHoldsTargets env)
    (flags : Along (step env) FlagsShowHeld run inputs)
    (releases : Along (step env) (ReleasesLastOnTarget env) run inputs) :
    Along (step env)
      (fun run input => ∀ next, run.step env input = some next → next.ChordShowsHeld)
      run inputs := by
  induction inputs generalizing run with
  | nil => trivial
  | cons input inputs ih =>
      intro next stepped
      obtain ⟨flagsHere, flagsLater⟩ := flags next stepped
      obtain ⟨releasesHere, releasesLater⟩ := releases next stepped
      have nextRemote := (step_of_remote isRemote stepped).1
      have nextHolds := (peerHoldsTargets_step_iff isRemote holds stepped).mpr releasesHere
      refine ⟨fun other taken => ?_, ih nextRemote nextHolds flagsLater releasesLater⟩
      rw [stepped] at taken
      cases taken
      exact chordShowsHeld_step isRemote flagsHere stepped nextHolds

instance (run : KeyRun) (input : KeyInput) : Decidable (run.FlagsShowHeld input) :=
  inferInstanceAs (Decidable (∀ modifier ∈ ModMask.singles,
    input.mods.contains modifier = true ↔
      ∃ hid, Pressed (run.physical ++ [⟨input.hidUsage, input.state.isDown⟩]) hid ∧
        modifierOf hid = some modifier))

end KeyRun

/-- The chord byte and the key events tell the peer the same.  If the flags of the Mac's
events show the modifiers that the user holds, and no key is released while another held
key has its target, then the chord byte of every message shows the modifiers that the peer
holds after it. -/
theorem chords_show_held (env : BrainEnv) (brain : Brain)
    (isRemote : brain.sm.state = .remoteActive) (inputs : List KeyInput)
    (flags : Along (KeyRun.step env) KeyRun.FlagsShowHeld (.start brain) inputs)
    (releases : Along (KeyRun.step env) (KeyRun.ReleasesLastOnTarget env) (.start brain)
      inputs) :
    Along (KeyRun.step env)
      (fun run input => ∀ next, run.step env input = some next → next.ChordShowsHeld)
      (.start brain) inputs := by
  have started : (KeyRun.start brain).PeerHoldsTargets env := fun name => by
    simp [KeyRun.start]
  exact KeyRun.chords_along isRemote started flags releases

/-- Cmd+C arrives as Ctrl+C in both layers. -/
theorem chords_show_held_copyChord :
    Along (KeyRun.step singleDisplay)
      (fun run input => ∀ next, run.step singleDisplay input = some next →
        next.ChordShowsHeld)
      (.start crossedBrain) copyChord :=
  chords_show_held singleDisplay crossedBrain (by decide) copyChord (by decide) (by decide)

end Kmwarp.Server
