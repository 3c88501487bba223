import Kmwarp.Core.ModMap
import Kmwarp.Foundation.Tables

/-!
# Scancodes of HID usages

Windows is given PS/2 set-1 scancodes, which do not depend on the keyboard layout of the
receiving user.  The virtual keys of Windows serve the opposite direction.
-/

namespace Kmwarp

open Foundation

/-- What goes into `KEYBDINPUT.wScan`, and whether `KEYEVENTF_EXTENDEDKEY` is set. -/
structure WinScancode where
  code : UInt16
  extended : Bool
deriving DecidableEq, Repr

/-- Virtual keys of Windows with their HID usages. -/
def win32VkToHid : List (UInt16 × UInt16) :=
  [ -- letters
    (0x41, 0x04), (0x42, 0x05), (0x43, 0x06), (0x44, 0x07), (0x45, 0x08),
    (0x46, 0x09), (0x47, 0x0A), (0x48, 0x0B), (0x49, 0x0C), (0x4A, 0x0D),
    (0x4B, 0x0E), (0x4C, 0x0F), (0x4D, 0x10), (0x4E, 0x11), (0x4F, 0x12),
    (0x50, 0x13), (0x51, 0x14), (0x52, 0x15), (0x53, 0x16), (0x54, 0x17),
    (0x55, 0x18), (0x56, 0x19), (0x57, 0x1A), (0x58, 0x1B), (0x59, 0x1C),
    (0x5A, 0x1D),
    -- digits
    (0x31, 0x1E), (0x32, 0x1F), (0x33, 0x20), (0x34, 0x21), (0x35, 0x22),
    (0x36, 0x23), (0x37, 0x24), (0x38, 0x25), (0x39, 0x26), (0x30, 0x27),
    -- editing and whitespace
    (0x0D, 0x28), (0x1B, 0x29), (0x08, 0x2A), (0x09, 0x2B), (0x20, 0x2C),
    (0xBD, 0x2D), (0xBB, 0x2E), (0xDB, 0x2F), (0xDD, 0x30), (0xDC, 0x31),
    (0xBA, 0x33), (0xDE, 0x34), (0xC0, 0x35), (0xBC, 0x36), (0xBE, 0x37),
    (0xBF, 0x38), (0x14, 0x39),
    -- F-keys
    (0x70, 0x3A), (0x71, 0x3B), (0x72, 0x3C), (0x73, 0x3D), (0x74, 0x3E),
    (0x75, 0x3F), (0x76, 0x40), (0x77, 0x41), (0x78, 0x42), (0x79, 0x43),
    (0x7A, 0x44), (0x7B, 0x45),
    -- navigation cluster
    (0x2D, 0x49), (0x24, 0x4A), (0x21, 0x4B), (0x2E, 0x4C), (0x23, 0x4D),
    (0x22, 0x4E),
    -- arrow keys
    (0x27, 0x4F), (0x25, 0x50), (0x28, 0x51), (0x26, 0x52),
    -- modifiers
    (0xA2, 0xE0), (0xA0, 0xE1), (0xA4, 0xE2), (0x5B, 0xE3), (0xA3, 0xE4),
    (0xA1, 0xE5), (0xA5, 0xE6), (0x5C, 0xE7) ]

/-- HID usages with their scancodes; an extended key has `0xE0` in the high byte. -/
def hidToScancodeTable : List (UInt16 × UInt16) :=
  [ -- letters
    (0x04, 0x1E), (0x05, 0x30), (0x06, 0x2E), (0x07, 0x20), (0x08, 0x12),
    (0x09, 0x21), (0x0A, 0x22), (0x0B, 0x23), (0x0C, 0x17), (0x0D, 0x24),
    (0x0E, 0x25), (0x0F, 0x26), (0x10, 0x32), (0x11, 0x31), (0x12, 0x18),
    (0x13, 0x19), (0x14, 0x10), (0x15, 0x13), (0x16, 0x1F), (0x17, 0x14),
    (0x18, 0x16), (0x19, 0x2F), (0x1A, 0x11), (0x1B, 0x2D), (0x1C, 0x15),
    (0x1D, 0x2C),
    -- digits
    (0x1E, 0x02), (0x1F, 0x03), (0x20, 0x04), (0x21, 0x05), (0x22, 0x06),
    (0x23, 0x07), (0x24, 0x08), (0x25, 0x09), (0x26, 0x0A), (0x27, 0x0B),
    -- editing and whitespace
    (0x28, 0x1C), (0x29, 0x01), (0x2A, 0x0E), (0x2B, 0x0F), (0x2C, 0x39),
    (0x2D, 0x0C), (0x2E, 0x0D), (0x2F, 0x1A), (0x30, 0x1B), (0x31, 0x2B),
    (0x33, 0x27), (0x34, 0x28), (0x35, 0x29), (0x36, 0x33), (0x37, 0x34),
    (0x38, 0x35), (0x39, 0x3A),
    -- F-keys
    (0x3A, 0x3B), (0x3B, 0x3C), (0x3C, 0x3D), (0x3D, 0x3E), (0x3E, 0x3F),
    (0x3F, 0x40), (0x40, 0x41), (0x41, 0x42), (0x42, 0x43), (0x43, 0x44),
    (0x44, 0x57), (0x45, 0x58),
    -- navigation cluster
    (0x49, 0xE052), (0x4A, 0xE047), (0x4B, 0xE049), (0x4C, 0xE053), (0x4D, 0xE04F),
    (0x4E, 0xE051),
    -- arrow keys
    (0x4F, 0xE04D), (0x50, 0xE04B), (0x51, 0xE050), (0x52, 0xE048),
    -- modifiers
    (0xE0, 0x001D), (0xE1, 0x002A), (0xE2, 0x0038), (0xE3, 0xE05B), (0xE4, 0xE01D),
    (0xE5, 0x0036), (0xE6, 0xE038), (0xE7, 0xE05C) ]

def hidToMacos (hid : UInt16) : Option UInt16 :=
  keyOf macosVkToHid hid

def windowsToHid (vk : UInt16) : Option UInt16 :=
  valueOf win32VkToHid vk

/-- The packed scancode, as the compatibility wrapper returns it. -/
def hidToScancode (hid : UInt16) : Option UInt16 :=
  valueOf hidToScancodeTable hid

def isExtendedScancode (packed : UInt16) : Bool :=
  packed >>> 8 == 0xE0

def scancodeLowByte (packed : UInt16) : UInt16 :=
  packed &&& 0x00FF

/-- The scancode byte, and whether the extended-key prefix is in front of it. -/
def splitScancode (packed : UInt16) : WinScancode :=
  ⟨scancodeLowByte packed, isExtendedScancode packed⟩

def hidToWindowsScancode (hid : UInt16) : Option WinScancode :=
  (hidToScancode hid).map splitScancode

/-! ## What the tables promise each other -/

theorem oneToOne_macosVkToHid : OneToOne macosVkToHid :=
  oneToOne_of_distinctFrom UInt16.toNat UInt16.toNat rfl rfl

theorem oneToOne_win32VkToHid : OneToOne win32VkToHid :=
  oneToOne_of_distinctFrom UInt16.toNat UInt16.toNat rfl rfl

theorem oneToOne_hidToScancodeTable : OneToOne hidToScancodeTable :=
  oneToOne_of_distinctFrom UInt16.toNat UInt16.toNat rfl rfl

/-- Every packed scancode is either a bare byte or one behind `0xE0`. -/
theorem packed_of_mem {hid packed : UInt16} (entry : (hid, packed) ∈ hidToScancodeTable) :
    packed = (if (splitScancode packed).extended then 0xE000 else 0) |||
      (splitScancode packed).code := by
  have all : hidToScancodeTable.all (fun row =>
      row.2 == (if (splitScancode row.2).extended then 0xE000 else 0) |||
        (splitScancode row.2).code) = true := by
    rfl
  exact eq_of_beq (List.all_eq_true.mp all _ entry)

/-- Splitting loses nothing, so usages with the same scancode are the same. -/
theorem hidToWindowsScancode_injective {hid other : UInt16} {scancode : WinScancode}
    (found : hidToWindowsScancode hid = some scancode)
    (alsoFound : hidToWindowsScancode other = some scancode) : hid = other := by
  obtain ⟨packed, isPacked, rfl⟩ := Option.map_eq_some_iff.mp found
  obtain ⟨otherPacked, isOtherPacked, same⟩ := Option.map_eq_some_iff.mp alsoFound
  have samePacked : splitScancode otherPacked = splitScancode packed := same
  have entry := oneToOne_hidToScancodeTable.valueOf_eq_some_iff.mp isPacked
  have otherEntry := oneToOne_hidToScancodeTable.valueOf_eq_some_iff.mp isOtherPacked
  have equal : packed = otherPacked := by
    rw [packed_of_mem entry, packed_of_mem otherEntry, samePacked]
  exact oneToOne_hidToScancodeTable.valueOf_injective isPacked (equal ▸ isOtherPacked)

/-- The remap sends a usage with a scancode to a usage with a scancode. -/
theorem isSome_scancode_applyToHid (remap : ModRemap) {hid : UInt16}
    (mapped : (hidToWindowsScancode hid).isSome = true) :
    (hidToWindowsScancode (remap.applyToHid hid)).isSome = true := by
  have targets : ∀ target : ModTarget,
      (leftHidFor target).all (fun other => (hidToWindowsScancode other).isSome) = true ∧
      (rightHidFor target).all (fun other => (hidToWindowsScancode other).isSome) = true := by
    intro target
    cases target <;> exact ⟨rfl, rfl⟩
  have getD : ∀ destination : Option UInt16,
      destination.all (fun other => (hidToWindowsScancode other).isSome) = true →
        (hidToWindowsScancode (destination.getD hid)).isSome = true := by
    intro destination all
    cases destination with
    | none => exact mapped
    | some other => exact all
  unfold ModRemap.applyToHid
  split
  · exact getD _ (targets remap.cmd).1
  · split
    · exact getD _ (targets remap.cmd).2
    · split
      · exact getD _ (targets remap.option).1
      · split
        · exact getD _ (targets remap.option).2
        · exact mapped

/-- Whatever key of the Mac is pressed and however it is remapped, Windows has a scancode
for it. -/
theorem isSome_scancode_of_macosToHid (remap : ModRemap) {vk hid : UInt16}
    (isHid : macosToHid vk = some hid) :
    (hidToWindowsScancode (remap.applyToHid hid)).isSome = true := by
  have all : macosVkToHid.all (fun row => (hidToWindowsScancode row.2).isSome) = true := by
    rfl
  have entry := oneToOne_macosVkToHid.valueOf_eq_some_iff.mp isHid
  exact isSome_scancode_applyToHid remap (List.all_eq_true.mp all _ entry)

/-- The virtual keys of Windows reach every usage of the Mac. -/
theorem exists_windowsToHid_of_macosToHid {vk hid : UInt16} (isHid : macosToHid vk = some hid) :
    ∃ winVk, windowsToHid winVk = some hid := by
  have all : macosVkToHid.all (fun row => (keyOf win32VkToHid row.2).isSome) = true := by
    rfl
  have entry := oneToOne_macosVkToHid.valueOf_eq_some_iff.mp isHid
  obtain ⟨winVk, isKey⟩ := Option.isSome_iff_exists.mp (List.all_eq_true.mp all _ entry)
  exact ⟨winVk, oneToOne_win32VkToHid.valueOf_iff_keyOf.mpr isKey⟩

/-- A key of the Mac keeps its identity through every table: its usage leads back to it,
one virtual key of Windows has the same usage, and under every remap it arrives as a
scancode that no other usage has. -/
theorem keyTables_agree (remap : ModRemap) {vk hid : UInt16} (isHid : macosToHid vk = some hid) :
    (∀ other, hidToMacos hid = some other ↔ other = vk) ∧
      (∃! winVk, windowsToHid winVk = some hid) ∧
      ∃ scancode, hidToWindowsScancode (remap.applyToHid hid) = some scancode ∧
        ∀ other, hidToWindowsScancode other = some scancode → other = remap.applyToHid hid := by
  refine ⟨fun other => ?_, ?_, ?_⟩
  · have back : hidToMacos hid = some vk := oneToOne_macosVkToHid.valueOf_iff_keyOf.mp isHid
    rw [back, Option.some.injEq, eq_comm]
  · obtain ⟨winVk, isWindows⟩ := exists_windowsToHid_of_macosToHid isHid
    exact ⟨winVk, isWindows, fun other alsoWindows =>
      oneToOne_win32VkToHid.valueOf_injective alsoWindows isWindows⟩
  · obtain ⟨scancode, found⟩ :=
      Option.isSome_iff_exists.mp (isSome_scancode_of_macosToHid remap isHid)
    exact ⟨scancode, found, fun other alsoFound =>
      hidToWindowsScancode_injective alsoFound found⟩

/-- Right Cmd, which is sent as right Ctrl. -/
theorem keyTables_agree_rightCommand :
    ∃ scancode, hidToWindowsScancode Usage.rightCtrl = some scancode ∧
      ∀ other, hidToWindowsScancode other = some scancode → other = Usage.rightCtrl :=
  (keyTables_agree {} (show macosToHid 0x36 = some Usage.rightGui by decide)).2.2

end Kmwarp
