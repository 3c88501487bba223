import Kmwarp.Foundation.Bitmap
import Kmwarp.Server.Tap
import Mathlib.Logic.Function.Basic

/-!
# Directions of modifier keys

A change of flags does not say whether its key went down or up.  The tap toggles a
bitmap that starts out empty, whatever is held when the tap is installed.
-/

namespace Kmwarp.Server

open Foundation

/-! ## The tracked modifiers -/

/-- The modifiers that `mod_bit` tracks, with their bits. -/
def trackedModifiers : List (UInt16 × UInt32) :=
  [(0x38, 0), (0x3C, 1), (0x3B, 2), (0x3E, 3), (0x3A, 4), (0x3D, 5), (0x37, 6), (0x36, 7),
    (0x39, 8)]

theorem mem_trackedModifiers {vk : UInt16} {bitIdx : UInt32} (tracked : modBit vk = some bitIdx) :
    (vk, bitIdx) ∈ trackedModifiers := by
  simp only [modBit, ite_eq_iff, Option.some.injEq, reduceCtorEq, and_false, or_false] at tracked
  simp only [trackedModifiers, List.mem_cons, Prod.mk.injEq, List.not_mem_nil, or_false]
  grind

/-- Each tracked modifier has a bit of its own, and a usage to be sent as. -/
theorem tracked_spec {vk : UInt16} {bitIdx : UInt32} (tracked : modBit vk = some bitIdx) :
    bitIdx.toNat < 32 ∧ ∃ hid, macosToHid vk = some hid := by
  have all : trackedModifiers.all
      (fun pair => decide (pair.2.toNat < 32) && (macosToHid pair.1).isSome) = true := by
    decide
  have entry := List.all_eq_true.mp all _ (mem_trackedModifiers tracked)
  rw [Bool.and_eq_true, decide_eq_true_eq] at entry
  exact ⟨entry.1, Option.isSome_iff_exists.mp entry.2⟩

theorem modBit_injective {vk other : UInt16} {bitIdx : UInt32}
    (tracked : modBit vk = some bitIdx) (otherTracked : modBit other = some bitIdx) :
    vk = other := by
  have all : ∀ pair ∈ trackedModifiers, ∀ next ∈ trackedModifiers,
      pair.2 = next.2 → pair.1 = next.1 := by
    simp [trackedModifiers]
  exact all _ (mem_trackedModifiers tracked) _ (mem_trackedModifiers otherTracked) rfl

/-! ## Reports -/

/-- A key event that the tap reports, and whether its key went down. -/
structure ModifierReport where
  event : SourceEvent
  pressed : Bool
deriving DecidableEq

/-- The key event has the direction of the transition. -/
def ModifierReport.Truthful (report : ModifierReport) : Prop :=
  ∀ hid state mods, report.event = .key hid state mods →
    (state = .down ↔ report.pressed = true)

/-- The modifier that the event reports a transition of. -/
def changedModifier (event : TapEvent) : Option UInt16 :=
  if event.etype = EventType.flagsChanged ∧ (modBit event.vk).isSome then some event.vk
  else none

/-- The bitmap with which `install` starts the tap. -/
def installedHeldMods : UInt32 := 0

/-- The reports of a tap with this bitmap, while `held` are the modifiers physically
held.  Each transition of a modifier changes both. -/
def modifierReports (held : UInt16 → Bool) (heldMods : UInt32) :
    List TapEvent → List ModifierReport
  | [] => []
  | event :: events =>
      let translated := translate event heldMods
      match changedModifier event with
      | some vk =>
          translated.1.toList.map (fun key => ⟨key, !held vk⟩) ++
            modifierReports (Function.update held vk (!held vk)) translated.2 events
      | none => modifierReports held translated.2 events

theorem changedModifier_eq_some {event : TapEvent} {vk : UInt16}
    (changed : changedModifier event = some vk) :
    event.etype = EventType.flagsChanged ∧ vk = event.vk ∧
      ∃ bitIdx, modBit event.vk = some bitIdx := by
  rw [changedModifier] at changed
  split at changed
  · rename_i isChange
    cases changed
    exact ⟨isChange.1, rfl, Option.isSome_iff_exists.mp isChange.2⟩
  · cases changed

theorem translate_flagsChanged {event : TapEvent} (isChange : event.etype = EventType.flagsChanged)
    (heldMods : UInt32) : translate event heldMods = translateFlagsChanged event heldMods := by
  simp [translate, isMouseMotion, isChange, EventType.flagsChanged, EventType.mouseMoved,
    EventType.leftMouseDragged, EventType.rightMouseDragged, EventType.otherMouseDragged,
    EventType.leftMouseDown, EventType.leftMouseUp, EventType.rightMouseDown,
    EventType.rightMouseUp, EventType.otherMouseDown, EventType.otherMouseUp,
    EventType.scrollWheel, EventType.keyDown, EventType.keyUp]

/-- A transition is reported as a release exactly if the bit of its key was set, and
toggles this bit. -/
theorem translate_of_changed {event : TapEvent} {vk : UInt16}
    (changed : changedModifier event = some vk) (heldMods : UInt32) :
    ∃ bitIdx hid, modBit vk = some bitIdx ∧
      translate event heldMods =
        (some (.key hid (if bitSet heldMods bitIdx then .up else .down)
          (modsFromFlags event.flags)), heldMods ^^^ (1 <<< bitIdx)) := by
  obtain ⟨isChange, rfl, bitIdx, tracked⟩ := changedModifier_eq_some changed
  obtain ⟨_, hid, mapped⟩ := tracked_spec tracked
  refine ⟨bitIdx, hid, tracked, ?_⟩
  rw [translate_flagsChanged isChange]
  simp only [translateFlagsChanged, tracked, mapped, bitSet]
  rfl

/-- No other event touches the bitmap. -/
theorem heldMods_of_not_changed {event : TapEvent} (notChanged : changedModifier event = none)
    (heldMods : UInt32) : (translate event heldMods).2 = heldMods := by
  by_cases isChange : event.etype = EventType.flagsChanged
  · have untracked : modBit event.vk = none := by
      simpa [changedModifier, isChange] using notChanged
    rw [translate_flagsChanged isChange, translateFlagsChanged, untracked]
  · simp only [translate, if_neg isChange, apply_ite Prod.snd, ite_self]

/-! ## The bitmap and the keys -/

/-- The bitmap is off from the physical keys by those held when the tap was installed. -/
def TracksSince (heldAtInstall held : UInt16 → Bool) (heldMods : UInt32) : Prop :=
  ∀ vk bitIdx, modBit vk = some bitIdx →
    bitSet heldMods bitIdx = (held vk ^^ heldAtInstall vk)

theorem tracksSince_installed (heldAtInstall : UInt16 → Bool) :
    TracksSince heldAtInstall heldAtInstall installedHeldMods := by
  intro vk bitIdx _
  simp [bitSet, installedHeldMods]

theorem TracksSince.toggle {heldAtInstall held : UInt16 → Bool} {heldMods : UInt32}
    (tracks : TracksSince heldAtInstall held heldMods) {vk : UInt16} {bitIdx : UInt32}
    (tracked : modBit vk = some bitIdx) :
    TracksSince heldAtInstall (Function.update held vk (!held vk))
      (heldMods ^^^ (1 <<< bitIdx)) := by
  intro other otherIdx otherTracked
  rw [bitSet_toggle heldMods (tracked_spec tracked).1 (tracked_spec otherTracked).1,
    tracks other otherIdx otherTracked]
  by_cases same : other = vk
  · subst same
    have sameIdx : bitIdx = otherIdx := Option.some.inj (tracked.symm.trans otherTracked)
    rw [Function.update_self, sameIdx]
    cases held other <;> cases heldAtInstall other <;> simp
  · have distinct : bitIdx ≠ otherIdx := by
      rintro rfl
      exact same (modBit_injective otherTracked tracked)
    rw [Function.update_of_ne same, decide_eq_false distinct, Bool.xor_false]

/-- A tap that is off by the keys held at installation reports the truth exactly about
the other keys. -/
theorem truthful_iff {heldAtInstall held : UInt16 → Bool} {heldMods : UInt32}
    (tracks : TracksSince heldAtInstall held heldMods) (events : List TapEvent) :
    (∀ report ∈ modifierReports held heldMods events, report.Truthful) ↔
      ∀ event ∈ events, ∀ vk, changedModifier event = some vk → heldAtInstall vk = false := by
  induction events generalizing held heldMods with
  | nil => simp [modifierReports]
  | cons event events ih =>
      rw [List.forall_mem_cons, modifierReports]
      cases changed : changedModifier event with
      | none =>
          simp only [heldMods_of_not_changed changed, ih tracks]
          simp
      | some vk =>
          obtain ⟨bitIdx, hid, tracked, translates⟩ := translate_of_changed changed heldMods
          simp only [translates, Option.toList_some, List.map_cons, List.map_nil]
          rw [List.forall_mem_append, ih (tracks.toggle tracked), List.forall_mem_singleton]
          refine and_congr_left fun _ => ?_
          rw [tracks vk bitIdx tracked]
          simp only [ModifierReport.Truthful, Option.some.injEq, forall_eq']
          cases held vk <;> cases heldAtInstall vk <;> simp

/-- Every modifier event of a tap has the direction of its transition exactly if no
transition is of a modifier that was held when the tap was installed. -/
theorem modifiersTruthful_iff_notHeldAtInstall (heldAtInstall : UInt16 → Bool)
    (events : List TapEvent) :
    (∀ report ∈ modifierReports heldAtInstall installedHeldMods events, report.Truthful) ↔
      ∀ event ∈ events, ∀ vk, changedModifier event = some vk → heldAtInstall vk = false :=
  truthful_iff (tracksSince_installed heldAtInstall) events

/-- Left Shift is held while the tap is installed, and its release is reported as a
press. -/
theorem not_modifiersTruthful_shiftHeldAtInstall :
    ¬ ∀ heldAtInstall events,
      ∀ report ∈ modifierReports heldAtInstall installedHeldMods events, report.Truthful := by
  intro always
  let released : TapEvent := { etype := EventType.flagsChanged, keycode := 0x38 }
  let report : ModifierReport := ⟨.key Usage.leftShift .down {}, false⟩
  have reported : report ∈
      modifierReports (fun vk => vk == 0x38) installedHeldMods [released] := by
    decide
  have truthful := always _ _ report reported Usage.leftShift .down {} rfl
  cases truthful.mp rfl

end Kmwarp.Server
