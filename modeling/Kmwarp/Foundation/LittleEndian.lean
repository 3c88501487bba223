import Mathlib.Algebra.Order.Group.Nat

/-!
# Little-endian byte lists

Fixed-width little-endian coding of natural numbers, independent of any
machine integer type.
-/

namespace Kmwarp.Foundation

/-- The low `width` bytes of `value`, least significant first. -/
def toLe : Nat → Nat → List UInt8
  | 0, _ => []
  | width + 1, value => UInt8.ofNat value :: toLe width (value / 256)

/-- The number whose little-endian digits are the given bytes. -/
def ofLe : List UInt8 → Nat
  | [] => 0
  | byte :: bytes => byte.toNat + 256 * ofLe bytes

@[simp] theorem length_toLe (width value : Nat) :
    (toLe width value).length = width := by
  induction width generalizing value with
  | zero => rfl
  | succ width ih => simp [toLe, ih]

theorem ofLe_toLe (width value : Nat) :
    ofLe (toLe width value) = value % 256 ^ width := by
  induction width generalizing value with
  | zero => simp [toLe, ofLe, Nat.mod_one]
  | succ width ih =>
      have low : (UInt8.ofNat value).toNat = value % 256 := by simp
      rw [toLe, ofLe, ih, low, Nat.pow_succ', Nat.mod_mul]

/-- Bytes wide enough for the value decode to it. -/
theorem ofLe_toLe_of_lt {width value : Nat} (fits : value < 256 ^ width) :
    ofLe (toLe width value) = value := by
  rw [ofLe_toLe, Nat.mod_eq_of_lt fits]

theorem ofLe_lt (bytes : List UInt8) : ofLe bytes < 256 ^ bytes.length := by
  induction bytes with
  | nil => simp [ofLe]
  | cons byte bytes ih =>
      have head : byte.toNat < 256 := byte.toNat_lt
      simp only [ofLe, List.length_cons, Nat.pow_succ']
      omega

/-- Every byte list is the coding of the number it decodes to. -/
theorem toLe_ofLe (bytes : List UInt8) : toLe bytes.length (ofLe bytes) = bytes := by
  induction bytes with
  | nil => rfl
  | cons byte bytes ih =>
      have bound : byte.toNat < 256 := byte.toNat_lt
      have low : UInt8.ofNat (byte.toNat + 256 * ofLe bytes) = byte := by
        rw [UInt8.ofNat_add]
        simp
      have high : (byte.toNat + 256 * ofLe bytes) / 256 = ofLe bytes := by omega
      rw [List.length_cons, ofLe, toLe, low, high, ih]

end Kmwarp.Foundation
