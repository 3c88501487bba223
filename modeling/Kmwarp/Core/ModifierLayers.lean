import Kmwarp.Core.ModMap
import Mathlib.Data.Nat.Bitwise

/-!
# The two layers of the modifier remap

A held modifier shows in two places on the wire: as a key of its own, and as a bit of the
chord byte.  The remap translates each by its own function.
-/

namespace Kmwarp

/-- The modifiers with a bit of their own. -/
def ModMask.singles : List ModMask :=
  [.shift, .ctrl, .alt, .metaKey]

/-- The bit of a modifier key. -/
def modifierOf (hid : UInt16) : Option ModMask :=
  if hid = Usage.leftShift ∨ hid = Usage.rightShift then some .shift
  else if hid = Usage.leftCtrl ∨ hid = Usage.rightCtrl then some .ctrl
  else if hid = Usage.leftAlt ∨ hid = Usage.rightAlt then some .alt
  else if hid = Usage.leftGui ∨ hid = Usage.rightGui then some .metaKey
  else none

/-- The bits of the mask are those of the keys. -/
def ModMask.Shows (mask : ModMask) (held : UInt16 → Prop) : Prop :=
  ∀ modifier ∈ ModMask.singles,
    mask.contains modifier = true ↔ ∃ hid, held hid ∧ modifierOf hid = some modifier

/-- What becomes of the bit of a modifier. -/
def ModRemap.modifierTarget (remap : ModRemap) (modifier : ModMask) : ModMask :=
  if modifier = .alt then modmaskFor remap.option .alt
  else if modifier = .metaKey then modmaskFor remap.cmd .metaKey
  else modifier

/-! ## Bits -/

namespace ModMask

/-- A single modifier is a power of two. -/
theorem exists_toNat_of_mem_singles {modifier : ModMask} (single : modifier ∈ singles) :
    ∃ index, modifier.bits.toNat = 2 ^ index := by
  simp only [singles, List.mem_cons, List.not_mem_nil, or_false] at single
  rcases single with rfl | rfl | rfl | rfl
  · exact ⟨0, rfl⟩
  · exact ⟨1, rfl⟩
  · exact ⟨2, rfl⟩
  · exact ⟨3, rfl⟩

theorem contains_eq_testBit (mask : ModMask) {modifier : ModMask} {index : Nat}
    (isBit : modifier.bits.toNat = 2 ^ index) :
    mask.contains modifier = mask.bits.toNat.testBit index := by
  have masked : (mask.bits &&& modifier.bits).toNat =
      (mask.bits.toNat.testBit index).toNat * 2 ^ index := by
    rw [UInt8.toNat_and, isBit, Nat.and_two_pow]
  have positive : 0 < 2 ^ index := Nat.two_pow_pos index
  rw [Bool.eq_iff_iff, contains, beq_iff_eq, ← UInt8.toNat_inj, masked, isBit]
  cases mask.bits.toNat.testBit index
  · simp only [Bool.toNat_false, Nat.zero_mul, Bool.false_eq_true, iff_false]
    omega
  · simp

theorem contains_insert (mask other : ModMask) {modifier : ModMask}
    (single : modifier ∈ singles) :
    (mask.insert other).contains modifier =
      (mask.contains modifier || other.contains modifier) := by
  obtain ⟨index, isBit⟩ := exists_toNat_of_mem_singles single
  rw [contains_eq_testBit _ isBit, contains_eq_testBit _ isBit, contains_eq_testBit _ isBit,
    insert, UInt8.toNat_or, Nat.testBit_or]

theorem contains_single {modifier other : ModMask} (single : modifier ∈ singles)
    (otherSingle : other ∈ singles) :
    other.contains modifier = decide (other = modifier) := by
  have all : singles.all (fun other => singles.all fun modifier =>
      other.contains modifier == decide (other = modifier)) = true := by
    decide
  exact eq_of_beq (List.all_eq_true.mp (List.all_eq_true.mp all _ otherSingle) _ single)

/-- A bit that is added under a condition. -/
theorem contains_ite_insert (mask : ModMask) {modifier other : ModMask} (condition : Bool)
    (single : modifier ∈ singles) (otherSingle : other ∈ singles) :
    (if condition then mask.insert other else mask).contains modifier =
      (mask.contains modifier || (condition && decide (other = modifier))) := by
  cases condition
  · simp
  · simp [contains_insert _ _ single, contains_single single otherSingle]

end ModMask

/-! ## The layers agree -/

theorem modmaskFor_mem_singles (target : ModTarget) {original : ModMask}
    (single : original ∈ ModMask.singles) : modmaskFor target original ∈ ModMask.singles := by
  cases target with
  | ctrl | alt | shift | metaKey => simp [modmaskFor, ModMask.singles]
  | identity => exact single

namespace ModRemap

variable (remap : ModRemap)

/-- The chord byte holds the targets of its bits. -/
theorem contains_applyToModmask_iff (src : ModMask) {modifier : ModMask}
    (single : modifier ∈ ModMask.singles) :
    (remap.applyToModmask src).contains modifier = true ↔
      ∃ source ∈ ModMask.singles, src.contains source = true ∧
        remap.modifierTarget source = modifier := by
  have shift : ModMask.shift ∈ ModMask.singles := by simp [ModMask.singles]
  have ctrl : ModMask.ctrl ∈ ModMask.singles := by simp [ModMask.singles]
  have alt : ModMask.alt ∈ ModMask.singles := by simp [ModMask.singles]
  have metaKey : ModMask.metaKey ∈ ModMask.singles := by simp [ModMask.singles]
  have empty : (⟨0⟩ : ModMask).contains modifier = false := by
    obtain ⟨index, isBit⟩ := ModMask.exists_toNat_of_mem_singles single
    rw [ModMask.contains_eq_testBit _ isBit]
    exact Nat.zero_testBit index
  simp only [applyToModmask, ModMask.contains_ite_insert _ _ single shift,
    ModMask.contains_ite_insert _ _ single ctrl,
    ModMask.contains_ite_insert _ _ single (modmaskFor_mem_singles remap.option alt),
    ModMask.contains_ite_insert _ _ single (modmaskFor_mem_singles remap.cmd metaKey), empty]
  have targets : remap.modifierTarget .shift = .shift ∧ remap.modifierTarget .ctrl = .ctrl ∧
      remap.modifierTarget .alt = modmaskFor remap.option .alt ∧
      remap.modifierTarget .metaKey = modmaskFor remap.cmd .metaKey :=
    ⟨rfl, rfl, rfl, rfl⟩
  simp [ModMask.singles, targets, or_assoc]

/-- A modifier key is sent as a key with the target of its bit. -/
theorem modifierOf_applyToHid (hid : UInt16) :
    modifierOf (remap.applyToHid hid) = (modifierOf hid).map remap.modifierTarget := by
  have left : ∀ target, ∀ original : UInt16, ∀ mask,
      modifierOf original = some mask →
        modifierOf ((leftHidFor target).getD original) = some (modmaskFor target mask) := by
    intro target original mask isModifier
    cases target with
    | identity => exact isModifier
    | ctrl | alt | shift | metaKey => rfl
  have right : ∀ target, ∀ original : UInt16, ∀ mask,
      modifierOf original = some mask →
        modifierOf ((rightHidFor target).getD original) = some (modmaskFor target mask) := by
    intro target original mask isModifier
    cases target with
    | identity => exact isModifier
    | ctrl | alt | shift | metaKey => rfl
  unfold applyToHid
  split
  · rename_i isLeftGui
    rw [isLeftGui, left remap.cmd _ .metaKey rfl]
    rfl
  · split
    · rename_i isRightGui
      rw [isRightGui, right remap.cmd _ .metaKey rfl]
      rfl
    · split
      · rename_i isLeftAlt
        rw [isLeftAlt, left remap.option _ .alt rfl]
        rfl
      · split
        · rename_i isRightAlt
          rw [isRightAlt, right remap.option _ .alt rfl]
          rfl
        · rename_i notLeftGui notRightGui notLeftAlt notRightAlt
          have others : ∀ mask, modifierOf hid = some mask → remap.modifierTarget mask = mask := by
            intro mask isModifier
            simp only [modifierOf, notLeftGui, notRightGui, notLeftAlt, notRightAlt, or_self,
              if_false, ite_eq_iff, Option.some.injEq, reduceCtorEq, and_false, or_false]
              at isModifier
            rcases isModifier with ⟨_, rfl⟩ | ⟨_, _, rfl⟩ <;> rfl
          cases isModifier : modifierOf hid with
          | none => rfl
          | some mask => rw [Option.map_some, others mask isModifier]

/-- A mask that shows the held keys is translated to one that shows their targets. -/
theorem shows_applyToModmask {mask : ModMask} {held : UInt16 → Prop}
    (shows : mask.Shows held) :
    (remap.applyToModmask mask).Shows fun name =>
      ∃ hid, held hid ∧ remap.applyToHid hid = name := by
  intro modifier single
  rw [remap.contains_applyToModmask_iff mask single]
  constructor
  · rintro ⟨source, sourceSingle, contained, rfl⟩
    obtain ⟨hid, isHeld, isModifier⟩ := (shows source sourceSingle).mp contained
    refine ⟨_, ⟨hid, isHeld, rfl⟩, ?_⟩
    rw [remap.modifierOf_applyToHid, isModifier, Option.map_some]
  · rintro ⟨_, ⟨hid, isHeld, rfl⟩, isModifier⟩
    rw [remap.modifierOf_applyToHid] at isModifier
    obtain ⟨source, isSource, isTarget⟩ := Option.map_eq_some_iff.mp isModifier
    have sourceSingle : source ∈ ModMask.singles := by
      simp only [modifierOf, ite_eq_iff, Option.some.injEq, reduceCtorEq, and_false, or_false]
        at isSource
      rcases isSource with ⟨_, rfl⟩ | ⟨_, ⟨_, rfl⟩ | ⟨_, ⟨_, rfl⟩ | ⟨_, _, rfl⟩⟩⟩ <;>
        simp [ModMask.singles]
    exact ⟨source, sourceSingle, (shows source sourceSingle).mpr ⟨hid, isHeld, isSource⟩,
      isTarget⟩

end ModRemap

end Kmwarp
