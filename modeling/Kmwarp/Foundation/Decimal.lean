import Mathlib.Algebra.Group.Nat.Defs
import Mathlib.Data.List.Induction

/-!
# Decimal codes

A number in decimal digits, with zeros in front up to a width.  Every non-empty word of
digits is such a text of its own width.
-/

namespace Kmwarp.Foundation

/-- A longer number keeps its digits. -/
def padded (width number : Nat) : List Char :=
  List.replicate (width - (Nat.toDigits 10 number).length) '0' ++ Nat.toDigits 10 number

theorem digitChar_of_isDigit {c : Char} (isDigit : c.isDigit) :
    ∃ value < 10, c = Nat.digitChar value := by
  have bounds : 48 ≤ c.toNat ∧ c.toNat ≤ 57 := by
    rw [Char.isDigit, Bool.and_eq_true, decide_eq_true_eq, decide_eq_true_eq] at isDigit
    exact isDigit
  have short : c.toNat - 48 < 10 := by omega
  refine ⟨c.toNat - 48, short, ?_⟩
  rw [← Char.toNat_inj, Nat.toNat_digitChar_of_lt_ten short]
  omega

theorem isDigit_of_mem_padded {width number : Nat} {c : Char}
    (member : c ∈ padded width number) : c.isDigit := by
  rcases List.mem_append.mp member with padding | digit
  · rw [List.eq_of_mem_replicate padding]
    rfl
  · exact Nat.isDigit_of_mem_toDigits (by omega) (by omega) digit

theorem length_padded {width number : Nat} (positive : 0 < width)
    (short : number < 10 ^ width) : (padded width number).length = width := by
  have digits : (Nat.toDigits 10 number).length ≤ width :=
    (Nat.length_toDigits_le_iff (by omega) positive).mpr short
  rw [padded, List.length_append, List.length_replicate, Nat.sub_add_cancel digits]

/-- One more digit at the end. -/
theorem padded_concat {width number value : Nat} (positive : 0 < width) (digit : value < 10) :
    padded (width + 1) (10 * number + value) =
      padded width number ++ [Nat.digitChar value] := by
  cases number with
  | zero =>
      have single : Nat.toDigits 10 value = [Nat.digitChar value] :=
        Nat.toDigits_of_lt_base digit
      have zeros : List.replicate (width - 1) '0' ++ ['0'] = List.replicate width '0' := by
        rw [← List.replicate_succ', Nat.sub_add_cancel positive]
      simp [padded, single, zeros]
  | succ number =>
      have digits : Nat.toDigits 10 (10 * (number + 1) + value) =
          Nat.toDigits 10 (number + 1) ++ [Nat.digitChar value] := by
        rw [← Nat.toDigits_append_toDigits (by omega) number.succ_pos digit,
          Nat.toDigits_of_lt_base digit]
      rw [padded, padded, digits, List.length_append, List.length_singleton,
        Nat.add_sub_add_right, List.append_assoc]

/-- Every word of digits is a number at its width. -/
theorem exists_padded {digits : List Char} (nonempty : digits ≠ [])
    (allDigits : ∀ c ∈ digits, c.isDigit) :
    ∃ number < 10 ^ digits.length, padded digits.length number = digits := by
  induction digits using List.reverseRecOn with
  | nil => exact absurd rfl nonempty
  | append_singleton digits c ih =>
      obtain ⟨value, digit, rfl⟩ := digitChar_of_isDigit
        (allDigits c (List.mem_append_right _ (List.mem_singleton_self c)))
      rw [List.length_append, List.length_singleton]
      cases front : digits with
      | nil =>
          refine ⟨value, digit, ?_⟩
          simp [padded, Nat.toDigits_of_lt_base digit]
      | cons first rest =>
          have occupied : digits ≠ [] := by
            rw [front]
            exact List.cons_ne_nil first rest
          obtain ⟨number, short, padding⟩ := ih occupied fun other member =>
            allDigits other (List.mem_append_left _ member)
          rw [← front]
          refine ⟨10 * number + value, ?_, ?_⟩
          · rw [Nat.pow_succ]
            omega
          · rw [padded_concat (List.length_pos_iff.mpr occupied) digit, padding]

end Kmwarp.Foundation
