import Mathlib.Order.Basic

/-!
# Watchdogs

A watchdog waits for a signal, for at most a given time of silence.  Signals that come while
it is not waiting are kept as one permit.  It notices anything only when it is polled: a
permit first, and then that its deadline has passed.
-/

namespace Kmwarp.Foundation

structure Watchdog where
  permit : Bool
  deadline : Nat
  expired : Bool
deriving DecidableEq

namespace Watchdog

def start (silence now : Nat) : Watchdog :=
  ⟨false, now + silence, false⟩

def signal (dog : Watchdog) : Watchdog :=
  { dog with permit := true }

/-- A permit is taken and the next wait begins; without one the deadline counts. -/
def poll (silence now : Nat) (dog : Watchdog) : Watchdog :=
  if dog.permit then ⟨false, now + silence, dog.expired⟩
  else if dog.deadline ≤ now then { dog with expired := true }
  else dog

/-- `heardAt` is the time of the last signal.  A wait begins after it, and the watchdog
expires only when nothing has been heard for the time of silence. -/
structure Sound (silence heardAt now : Nat) (dog : Watchdog) : Prop where
  heard : heardAt ≤ now
  armed : dog.permit = false → heardAt + silence ≤ dog.deadline
  late : dog.expired = true → heardAt + silence ≤ now

/-- `polledAt` is the time of the last poll.  A permit is younger than it; without one the
deadline lies ahead of it, and the wait has begun within `lag` of the last signal. -/
structure Prompt (silence lag heardAt polledAt : Nat) (dog : Watchdog) : Prop where
  fresh : dog.permit = true → polledAt ≤ heardAt
  ahead : dog.permit = false → dog.expired = false → polledAt < dog.deadline
  begun : dog.permit = false → dog.deadline ≤ heardAt + lag + silence

variable {silence lag heardAt polledAt now : Nat} {dog : Watchdog}

theorem sound_start (silence now : Nat) : (start silence now).Sound silence now now where
  heard := Nat.le_refl now
  armed _ := Nat.le_refl _
  late := nofun

theorem sound_signal (silence now : Nat) (alive : dog.expired = false) :
    dog.signal.Sound silence now now where
  heard := Nat.le_refl now
  armed := nofun
  late expired := by
    rw [Watchdog.signal, alive] at expired
    cases expired

theorem Sound.pass (sound : dog.Sound silence heardAt now) (time : Nat) :
    dog.Sound silence heardAt (now + time) where
  heard := Nat.le_trans sound.heard (Nat.le_add_right _ _)
  armed := sound.armed
  late expired := Nat.le_trans (sound.late expired) (Nat.le_add_right _ _)

theorem Sound.poll (sound : dog.Sound silence heardAt now) :
    (dog.poll silence now).Sound silence heardAt now := by
  have heard := sound.heard
  unfold Watchdog.poll
  cases permit : dog.permit with
  | true =>
      exact ⟨heard, fun _ => Nat.add_le_add_right heard silence, sound.late⟩
  | false =>
      have armed := sound.armed permit
      by_cases due : dog.deadline ≤ now
      · rw [if_neg Bool.false_ne_true, if_pos due]
        exact ⟨heard, fun _ => armed, fun _ => Nat.le_trans armed due⟩
      · rw [if_neg Bool.false_ne_true, if_neg due]
        exact sound

theorem prompt_start (positive : 0 < silence) (lag now : Nat) :
    (start silence now).Prompt silence lag now now where
  fresh := nofun
  ahead _ _ := Nat.lt_add_of_pos_right positive
  begun _ := Nat.add_le_add_right (Nat.le_add_right now lag) silence

theorem prompt_signal (silence lag : Nat) (polled : polledAt ≤ now) :
    dog.signal.Prompt silence lag now polledAt where
  fresh _ := polled
  ahead := nofun
  begun := nofun

/-- A poll comes within `lag` of the one before. -/
theorem Prompt.poll (positive : 0 < silence) (prompt : dog.Prompt silence lag heardAt polledAt)
    (soon : now ≤ polledAt + lag) : (dog.poll silence now).Prompt silence lag heardAt now := by
  unfold Watchdog.poll
  cases permit : dog.permit with
  | true =>
      have fresh := prompt.fresh permit
      refine ⟨nofun, fun _ _ => Nat.lt_add_of_pos_right positive, fun _ => ?_⟩
      show now + silence ≤ heardAt + lag + silence
      omega
  | false =>
      have begun := prompt.begun permit
      by_cases due : dog.deadline ≤ now
      · rw [if_neg Bool.false_ne_true, if_pos due]
        exact ⟨by simp, nofun, fun _ => begun⟩
      · rw [if_neg Bool.false_ne_true, if_neg due]
        exact ⟨by simp [permit], fun _ _ => Nat.lt_of_not_le due, fun _ => begun⟩

/-- A watchdog that is polled in time does not outlive the silence for long. -/
theorem Prompt.now_le (prompt : dog.Prompt silence lag heardAt polledAt)
    (alive : dog.expired = false) (soon : now ≤ polledAt + lag) :
    now ≤ heardAt + silence + 2 * lag := by
  cases permit : dog.permit with
  | true =>
      have fresh := prompt.fresh permit
      omega
  | false =>
      have ahead := prompt.ahead permit alive
      have begun := prompt.begun permit
      omega

end Watchdog

end Kmwarp.Foundation
