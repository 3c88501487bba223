import Mathlib.Data.List.Basic

/-!
# Relays

Items that pass through a chain of queues in order.  A queue may lose an item; none is
reordered or copied.
-/

namespace Kmwarp.Foundation

universe u

variable {α : Type u}

/-- What is still passing is what entered, in order, but for the lost items. -/
structure Relayed (entered passing : List α) (lost : Nat) : Prop where
  inOrder : passing.Sublist entered
  counted : entered.length = passing.length + lost

namespace Relayed

variable {entered passing : List α} {lost : Nat}

theorem nothing : Relayed ([] : List α) [] 0 := ⟨.refl _, rfl⟩

theorem enter (relayed : Relayed entered passing lost) (item : α) :
    Relayed (entered ++ [item]) (passing ++ [item]) lost where
  inOrder := relayed.inOrder.append (.refl _)
  counted := by
    have counted := relayed.counted
    simp only [List.length_append, List.length_singleton]
    omega

/-- Of the items that come together some enter. -/
theorem enterSome {items kept : List α} (relayed : Relayed entered passing lost)
    (inOrder : kept.Sublist items) :
    Relayed (entered ++ items) (passing ++ kept) (lost + (items.length - kept.length)) where
  inOrder := relayed.inOrder.append inOrder
  counted := by
    have counted := relayed.counted
    have shorter := inOrder.length_le
    simp only [List.length_append]
    omega

theorem lose {before after : List α} {item : α}
    (relayed : Relayed entered (before ++ item :: after) lost) :
    Relayed entered (before ++ after) (lost + 1) where
  inOrder := (List.Sublist.append (.refl before) (List.sublist_cons_self item after)).trans
    relayed.inOrder
  counted := by
    have counted := relayed.counted
    simp only [List.length_append, List.length_cons] at counted ⊢
    omega

/-- Without losses everything is still passing. -/
theorem eq_of_lossless (relayed : Relayed entered passing 0) : passing = entered :=
  relayed.inOrder.eq_of_length (by rw [relayed.counted, Nat.add_zero])

end Relayed

end Kmwarp.Foundation
