import Mathlib.Data.Nat.Bitwise

/-!
# Bitmaps in a machine word

Testing and toggling one bit of a 32-bit word.
-/

namespace Kmwarp.Foundation

def bitSet (bitmap index : UInt32) : Bool :=
  bitmap &&& (1 <<< index) != 0

theorem toNat_one_shiftLeft {index : UInt32} (bound : index.toNat < 32) :
    ((1 : UInt32) <<< index).toNat = 2 ^ index.toNat := by
  have small : 2 ^ index.toNat < 2 ^ 32 := Nat.pow_lt_pow_right (by decide) bound
  rw [UInt32.toNat_shiftLeft, Nat.mod_eq_of_lt bound, UInt32.toNat_one, Nat.one_shiftLeft,
    Nat.mod_eq_of_lt small]

theorem bitSet_eq_testBit (bitmap : UInt32) {index : UInt32} (bound : index.toNat < 32) :
    bitSet bitmap index = bitmap.toNat.testBit index.toNat := by
  have masked : (bitmap &&& (1 <<< index)).toNat =
      (bitmap.toNat.testBit index.toNat).toNat * 2 ^ index.toNat := by
    rw [UInt32.toNat_and, toNat_one_shiftLeft bound, Nat.and_two_pow]
  rw [Bool.eq_iff_iff, bitSet, bne_iff_ne, ne_eq, ← UInt32.toNat_inj, masked]
  cases bitmap.toNat.testBit index.toNat <;> simp

/-- Toggling a bit changes this bit only. -/
theorem bitSet_toggle (bitmap : UInt32) {index other : UInt32} (bound : index.toNat < 32)
    (otherBound : other.toNat < 32) :
    bitSet (bitmap ^^^ (1 <<< index)) other = (bitSet bitmap other ^^ decide (index = other)) := by
  have same : (index = other) = (index.toNat = other.toNat) := by rw [UInt32.toNat_inj]
  rw [bitSet_eq_testBit _ otherBound, bitSet_eq_testBit _ otherBound, UInt32.toNat_xor,
    toNat_one_shiftLeft bound, Nat.testBit_xor, Nat.testBit_two_pow]
  simp only [same]

end Kmwarp.Foundation
