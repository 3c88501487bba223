import Mathlib.Data.List.Count

/-!
# Resources with one holder

A ledger notes what has been acquired and what has been released.  It is accounted for
when every resource that is acquired and not released has exactly one holder; then nothing
is released twice, and what nobody holds has been released.
-/

namespace Kmwarp.Foundation

universe u v

/-- What has been acquired and released so far. -/
structure Ledger (κ : Type u) where
  acquired : List κ
  released : List κ
deriving DecidableEq

namespace Ledger

variable {κ : Type u}

def empty : Ledger κ := ⟨[], []⟩

def acquire (ledger : Ledger κ) (resource : κ) : Ledger κ :=
  { ledger with acquired := resource :: ledger.acquired }

def release (ledger : Ledger κ) (resource : κ) : Ledger κ :=
  { ledger with released := resource :: ledger.released }

@[simp] theorem acquired_acquire (ledger : Ledger κ) (resource : κ) :
    (ledger.acquire resource).acquired = resource :: ledger.acquired := rfl

@[simp] theorem acquired_release (ledger : Ledger κ) (resource : κ) :
    (ledger.release resource).acquired = ledger.acquired := rfl

@[simp] theorem released_acquire (ledger : Ledger κ) (resource : κ) :
    (ledger.acquire resource).released = ledger.released := rfl

@[simp] theorem released_release (ledger : Ledger κ) (resource : κ) :
    (ledger.release resource).released = resource :: ledger.released := rfl

/-- What is yet to be acquired stays so when something else is. -/
theorem fresh_acquire {ledger : Ledger κ} {resource : κ} {later : List κ}
    (fresh : ∀ other ∈ resource :: later, other ∉ ledger.acquired) (absent : resource ∉ later) :
    ∀ other ∈ later, other ∉ (ledger.acquire resource).acquired := by
  intro other isLater acquired
  rw [acquired_acquire] at acquired
  rcases List.mem_cons.mp acquired with rfl | before
  · exact absent isLater
  · exact fresh other (List.mem_cons_of_mem _ isLater) before

/-- The resources that are acquired and not released are the held ones, each held once. -/
structure Accounted (ledger : Ledger κ) (held : List κ) : Prop where
  once : ledger.acquired.Nodup
  split : ledger.acquired.Perm (ledger.released ++ held)

namespace Accounted

variable {ledger : Ledger κ} {held after : List κ} {resource : κ}

theorem empty : Accounted (Ledger.empty : Ledger κ) [] := ⟨List.nodup_nil, .refl _⟩

theorem acquire (accounted : ledger.Accounted held) (fresh : resource ∉ ledger.acquired)
    (gained : after.Perm (resource :: held)) : (ledger.acquire resource).Accounted after where
  once := List.nodup_cons.mpr ⟨fresh, accounted.once⟩
  split := by
    have moved : (resource :: (ledger.released ++ held)).Perm (ledger.released ++ after) :=
      List.perm_middle.symm.trans (gained.symm.append_left _)
    exact (accounted.split.cons resource).trans moved

theorem release (accounted : ledger.Accounted held) (lost : held.Perm (resource :: after)) :
    (ledger.release resource).Accounted after where
  once := accounted.once
  split := (accounted.split.trans (lost.append_left _)).trans List.perm_middle

/-- Handing a resource over changes who holds it and not what is held. -/
theorem move (accounted : ledger.Accounted held) (same : held.Perm after) :
    ledger.Accounted after where
  once := accounted.once
  split := accounted.split.trans (same.append_left _)

theorem nodup_append (accounted : ledger.Accounted held) : (ledger.released ++ held).Nodup :=
  accounted.split.nodup_iff.mp accounted.once

theorem released_once (accounted : ledger.Accounted held) : ledger.released.Nodup :=
  (List.nodup_append.mp accounted.nodup_append).1

theorem acquired_of_released (accounted : ledger.Accounted held)
    (released : resource ∈ ledger.released) : resource ∈ ledger.acquired :=
  accounted.split.mem_iff.mpr (List.mem_append_left _ released)

/-- What is open is what somebody holds. -/
theorem open_iff (accounted : ledger.Accounted held) :
    (resource ∈ ledger.acquired ∧ resource ∉ ledger.released) ↔ resource ∈ held := by
  rw [accounted.split.mem_iff, List.mem_append]
  constructor
  · rintro ⟨isReleased | isHeld, notReleased⟩
    · exact absurd isReleased notReleased
    · exact isHeld
  · intro isHeld
    refine ⟨.inr isHeld, fun isReleased => ?_⟩
    exact (List.nodup_append.mp accounted.nodup_append).2.2 _ isReleased _ isHeld rfl

end Accounted

end Ledger

/-- What the other parties hold when one of them exchanges what it holds. -/
theorem perm_flatMap_split {κ : Type u} {ρ : Type v} (holds : ρ → List κ) {parties : List ρ}
    {index : Nat} {before : ρ} (found : parties[index]? = some before) (after : ρ) :
    ∃ others, (parties.flatMap holds).Perm (holds before ++ others) ∧
      ((parties.set index after).flatMap holds).Perm (holds after ++ others) := by
  induction parties generalizing index with
  | nil => cases found
  | cons party parties ih =>
      cases index with
      | zero =>
          obtain rfl : party = before := Option.some.inj found
          exact ⟨parties.flatMap holds, .refl _, .refl _⟩
      | succ index =>
          obtain ⟨others, split, swapped⟩ :=
            ih (show parties[index]? = some before by simpa using found)
          refine ⟨holds party ++ others, ?_, ?_⟩
          · exact (split.append_left _).trans (List.perm_append_comm_assoc _ _ _)
          · exact (swapped.append_left _).trans (List.perm_append_comm_assoc _ _ _)

end Kmwarp.Foundation
