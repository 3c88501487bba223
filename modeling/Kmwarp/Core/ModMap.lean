import Kmwarp.Core.Hid
import Kmwarp.Core.Platform

/-!
# Modifier remap

Two parallel translations of the configured `[modifiers]` section: one on the
HID of a modifier key itself, one on the chord byte carried by every key.
-/

namespace Kmwarp

inductive ModTarget where
  | ctrl
  | alt
  | shift
  | metaKey
  | identity
deriving DecidableEq, Repr

/-- What the macOS Cmd and Option keys become on the peer. -/
structure ModRemap where
  cmd : ModTarget := .ctrl
  option : ModTarget := .alt
deriving DecidableEq, Repr

def leftHidFor : ModTarget → Option UInt16
  | .ctrl => some Usage.leftCtrl
  | .alt => some Usage.leftAlt
  | .shift => some Usage.leftShift
  | .metaKey => some Usage.leftGui
  | .identity => none

def rightHidFor : ModTarget → Option UInt16
  | .ctrl => some Usage.rightCtrl
  | .alt => some Usage.rightAlt
  | .shift => some Usage.rightShift
  | .metaKey => some Usage.rightGui
  | .identity => none

def modmaskFor (target : ModTarget) (original : ModMask) : ModMask :=
  match target with
  | .ctrl => .ctrl
  | .alt => .alt
  | .shift => .shift
  | .metaKey => .metaKey
  | .identity => original

namespace ModRemap

def applyToHid (remap : ModRemap) (hid : UInt16) : UInt16 :=
  if hid = Usage.leftGui then (leftHidFor remap.cmd).getD hid
  else if hid = Usage.rightGui then (rightHidFor remap.cmd).getD hid
  else if hid = Usage.leftAlt then (leftHidFor remap.option).getD hid
  else if hid = Usage.rightAlt then (rightHidFor remap.option).getD hid
  else hid

def applyToModmask (remap : ModRemap) (src : ModMask) : ModMask :=
  let out : ModMask := {}
  let out := if src.contains .shift then out.insert .shift else out
  let out := if src.contains .ctrl then out.insert .ctrl else out
  let out :=
    if src.contains .alt then out.insert (modmaskFor remap.option .alt) else out
  if src.contains .metaKey then out.insert (modmaskFor remap.cmd .metaKey) else out

/-- A defined modifier is on the wire byte exactly when it is in the mask. -/
theorem contains_fromWire_toWire (mask : ModMask) {modifier : ModMask}
    (isDefined : ModMask.definedBits &&& modifier.bits = modifier.bits) :
    (ModMask.fromWire mask.toWire).contains modifier = mask.contains modifier := by
  simp only [ModMask.contains, ModMask.fromWire, ModMask.toWire, UInt8.and_assoc,
    isDefined]

/-- The remap sees a mask only through the byte it has on the wire. -/
theorem applyToModmask_fromWire_toWire (remap : ModRemap) (mask : ModMask) :
    remap.applyToModmask (.fromWire mask.toWire) = remap.applyToModmask mask := by
  have shift := contains_fromWire_toWire mask (show _ &&& ModMask.shift.bits = _ by rfl)
  have ctrl := contains_fromWire_toWire mask (show _ &&& ModMask.ctrl.bits = _ by rfl)
  have alt := contains_fromWire_toWire mask (show _ &&& ModMask.alt.bits = _ by rfl)
  have metaKey :=
    contains_fromWire_toWire mask (show _ &&& ModMask.metaKey.bits = _ by rfl)
  simp only [applyToModmask, shift, ctrl, alt, metaKey]

end ModRemap

end Kmwarp
