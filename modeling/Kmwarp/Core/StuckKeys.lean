import Kmwarp.Core.Platform
import Mathlib.Data.List.Basic
import Std.Data.TreeSet.Lemmas

/-!
# Tracker of held keys

`HeldKeys` is the ordered set of HID usages that are down on the destination
side.  Draining it lists them in ascending order and empties the tracker.
-/

namespace Kmwarp

structure HeldKeys where
  keys : Std.TreeSet UInt16 := {}

namespace HeldKeys

def new : HeldKeys := {}

def insert (held : HeldKeys) (hid : UInt16) : HeldKeys :=
  ⟨held.keys.insert hid⟩

def remove (held : HeldKeys) (hid : UInt16) : HeldKeys :=
  ⟨held.keys.erase hid⟩

def isHeld (held : HeldKeys) (hid : UInt16) : Bool :=
  held.keys.contains hid

def isEmpty (held : HeldKeys) : Bool :=
  held.keys.isEmpty

def observe (held : HeldKeys) (hid : UInt16) : KeyState → HeldKeys
  | .down => held.insert hid
  | .up => held.remove hid

/-- The held keys in ascending order, and the emptied tracker. -/
def drain (held : HeldKeys) : List UInt16 × HeldKeys :=
  (held.keys.toList, {})

instance : Membership UInt16 HeldKeys where
  mem held hid := held.isHeld hid = true

instance (hid : UInt16) (held : HeldKeys) : Decidable (hid ∈ held) :=
  inferInstanceAs (Decidable (_ = true))

theorem mem_iff_mem_keys {held : HeldKeys} {hid : UInt16} :
    hid ∈ held ↔ hid ∈ held.keys :=
  Iff.rfl

@[simp] theorem not_mem_new (hid : UInt16) : hid ∉ new := by
  simp [mem_iff_mem_keys, new]

@[simp] theorem not_mem_drained (held : HeldKeys) (hid : UInt16) :
    hid ∉ held.drain.2 :=
  not_mem_new hid

@[simp] theorem mem_insert {held : HeldKeys} {hid other : UInt16} :
    other ∈ held.insert hid ↔ hid = other ∨ other ∈ held := by
  simp [mem_iff_mem_keys, insert, Std.TreeSet.mem_insert]

@[simp] theorem mem_remove {held : HeldKeys} {hid other : UInt16} :
    other ∈ held.remove hid ↔ hid ≠ other ∧ other ∈ held := by
  simp [mem_iff_mem_keys, remove, Std.TreeSet.mem_erase]

@[simp] theorem mem_drain {held : HeldKeys} {hid : UInt16} :
    hid ∈ held.drain.1 ↔ hid ∈ held := by
  simp [drain, mem_iff_mem_keys]

/-- Draining lists every held key once, in ascending order. -/
theorem drain_ascending (held : HeldKeys) :
    held.drain.1.Pairwise (· < ·) := by
  have ordered := held.keys.ordered_toList
  exact ordered.imp fun less => Std.compare_eq_lt.mp less

theorem isEmpty_iff {held : HeldKeys} :
    held.isEmpty = true ↔ ∀ hid, hid ∉ held := by
  simp only [isEmpty, mem_iff_mem_keys]
  exact Std.TreeSet.isEmpty_iff_forall_not_mem

theorem drain_eq_nil_iff {held : HeldKeys} :
    held.drain.1 = [] ↔ ∀ hid, hid ∉ held := by
  simp [List.eq_nil_iff_forall_not_mem]

end HeldKeys

end Kmwarp
