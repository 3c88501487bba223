import Mathlib.Data.List.Basic

/-!
# Bounded mailboxes

A mailbox is a FIFO queue with a bound.  Sending never blocks: it is refused
when the mailbox is full.
-/

namespace Kmwarp.Foundation

universe u v

structure Mailbox (bound : Nat) (α : Type u) where
  items : List α
  bounded : items.length ≤ bound

namespace Mailbox

variable {bound : Nat} {α : Type u}

instance [DecidableEq α] : DecidableEq (Mailbox bound α) := fun left right =>
  decidable_of_iff (left.items = right.items) (by
    cases left
    cases right
    simp)

@[ext] theorem ext {left right : Mailbox bound α} (same : left.items = right.items) :
    left = right := by
  cases left
  cases right
  subst same
  rfl

def empty : Mailbox bound α := ⟨[], Nat.zero_le _⟩

@[simp] theorem items_empty : (empty : Mailbox bound α).items = [] := rfl

/-- The mailbox with `item` behind the queued ones, unless it is full. -/
def trySend (mailbox : Mailbox bound α) (item : α) : Option (Mailbox bound α) :=
  if room : mailbox.items.length < bound then
    some ⟨mailbox.items ++ [item], by rw [List.length_append]; exact room⟩
  else none

/-- Send, and drop the item when the mailbox is full. -/
def offer (mailbox : Mailbox bound α) (item : α) : Mailbox bound α :=
  (mailbox.trySend item).getD mailbox

/-- Offer some items in order. -/
def offerAll (mailbox : Mailbox bound α) (items : List α) : Mailbox bound α :=
  items.foldl offer mailbox

/-- The item sent first and the mailbox without it. -/
def recv (mailbox : Mailbox bound α) : Option (α × Mailbox bound α) :=
  match mailbox with
  | ⟨[], _⟩ => none
  | ⟨head :: tail, bounded⟩ => some (head, ⟨tail, Nat.le_of_succ_le bounded⟩)

theorem trySend_of_room {mailbox : Mailbox bound α}
    (room : mailbox.items.length < bound) (item : α) :
    ∃ sent : Mailbox bound α, mailbox.trySend item = some sent ∧
      sent.items = mailbox.items ++ [item] := by
  rw [trySend, dif_pos room]
  exact ⟨_, rfl, rfl⟩

theorem trySend_of_full {mailbox : Mailbox bound α}
    (full : ¬ mailbox.items.length < bound) (item : α) : mailbox.trySend item = none := by
  rw [trySend, dif_neg full]

theorem items_trySend {mailbox sent : Mailbox bound α} {item : α}
    (accepted : mailbox.trySend item = some sent) :
    sent.items = mailbox.items ++ [item] := by
  rw [trySend] at accepted
  split at accepted
  · cases accepted
    rfl
  · cases accepted

/-- An offered item is queued last or dropped. -/
theorem items_offer (mailbox : Mailbox bound α) (item : α) :
    (mailbox.offer item).items = mailbox.items ++ [item] ∨
      mailbox.offer item = mailbox := by
  rw [offer]
  cases accepted : mailbox.trySend item with
  | none => exact .inr rfl
  | some sent => exact .inl (items_trySend accepted)

theorem items_offer_of_room {mailbox : Mailbox bound α}
    (room : mailbox.items.length < bound) (item : α) :
    (mailbox.offer item).items = mailbox.items ++ [item] := by
  rw [offer, trySend, dif_pos room, Option.getD_some]

/-- Offering other items changes no count. -/
theorem countP_offer {p : α → Bool} {item : α} (other : p item = false)
    (mailbox : Mailbox bound α) :
    (mailbox.offer item).items.countP p = mailbox.items.countP p := by
  rcases mailbox.items_offer item with queued | dropped
  · simp [queued, other]
  · rw [dropped]

/-- Offering a counted item adds one, unless the mailbox is full. -/
theorem countP_offer_counted {p : α → Bool} {item : α} (counted : p item = true)
    (mailbox : Mailbox bound α) :
    (mailbox.offer item).items.countP p = mailbox.items.countP p + 1 ∨
      mailbox.offer item = mailbox ∧ ¬ mailbox.items.length < bound := by
  by_cases room : mailbox.items.length < bound
  · left
    rw [items_offer_of_room room, List.countP_append, List.countP_singleton, if_pos counted]
  · right
    exact ⟨by rw [offer, trySend, dif_neg room, Option.getD_none], room⟩

theorem countP_offerAll {p : α → Bool} {items : List α}
    (others : ∀ item ∈ items, p item = false) (mailbox : Mailbox bound α) :
    (mailbox.offerAll items).items.countP p = mailbox.items.countP p := by
  induction items generalizing mailbox with
  | nil => rfl
  | cons item items ih =>
      obtain ⟨other, others⟩ := List.forall_mem_cons.mp others
      exact (ih others (mailbox.offer item)).trans (countP_offer other mailbox)

/-- Offering what is not selected changes nothing of what is. -/
theorem filterMap_offer {β : Type v} {select : α → Option β} {item : α}
    (other : select item = none) (mailbox : Mailbox bound α) :
    (mailbox.offer item).items.filterMap select = mailbox.items.filterMap select := by
  rcases mailbox.items_offer item with queued | dropped
  · simp [queued, other]
  · rw [dropped]

theorem filterMap_offerAll {β : Type v} {select : α → Option β} {items : List α}
    (others : ∀ item ∈ items, select item = none) (mailbox : Mailbox bound α) :
    (mailbox.offerAll items).items.filterMap select = mailbox.items.filterMap select := by
  induction items generalizing mailbox with
  | nil => rfl
  | cons item items ih =>
      obtain ⟨other, others⟩ := List.forall_mem_cons.mp others
      exact (ih others (mailbox.offer item)).trans (filterMap_offer other mailbox)

/-- Of the offered items some are queued, in order, and all of them if there is room. -/
theorem exists_items_offerAll (items : List α) (mailbox : Mailbox bound α) :
    ∃ kept : List α, kept.Sublist items ∧
      (mailbox.offerAll items).items = mailbox.items ++ kept ∧
      (mailbox.items.length + items.length ≤ bound → kept = items) := by
  induction items generalizing mailbox with
  | nil => exact ⟨[], .refl _, (List.append_nil _).symm, fun _ => rfl⟩
  | cons item items ih =>
      obtain ⟨kept, inOrder, queued, all⟩ := ih (mailbox.offer item)
      by_cases room : mailbox.items.length < bound
      · have first := items_offer_of_room room item
        refine ⟨item :: kept, inOrder.cons_cons item, ?_, fun fits => ?_⟩
        · rw [offerAll, List.foldl_cons, ← offerAll, queued, first, List.append_assoc,
            List.singleton_append]
        · have fitsLater : (mailbox.offer item).items.length + items.length ≤ bound := by
            rw [first, List.length_append, List.length_singleton]
            rw [List.length_cons] at fits
            omega
          rw [all fitsLater]
      · have same : mailbox.offer item = mailbox := by
          rw [offer, trySend_of_full room, Option.getD_none]
        rw [same] at queued
        refine ⟨kept, inOrder.cons item, ?_, fun fits => ?_⟩
        · rw [offerAll, List.foldl_cons, ← offerAll, same, queued]
        · rw [List.length_cons] at fits
          omega

theorem items_recv {mailbox rest : Mailbox bound α} {item : α}
    (received : mailbox.recv = some (item, rest)) :
    mailbox.items = item :: rest.items := by
  rcases mailbox with ⟨_ | ⟨head, tail⟩, bounded⟩
  · cases received
  · cases received
    rfl

theorem recv_of_items {mailbox : Mailbox bound α} {item : α} {items : List α}
    (front : mailbox.items = item :: items) :
    ∃ rest : Mailbox bound α, mailbox.recv = some (item, rest) ∧ rest.items = items := by
  rcases mailbox with ⟨_ | ⟨head, tail⟩, bounded⟩
  · cases front
  · obtain ⟨rfl, rfl⟩ := List.cons.inj front
    exact ⟨_, rfl, rfl⟩

end Mailbox

end Kmwarp.Foundation
