import Kmwarp.Core.EdgeTrace
import Kmwarp.Foundation.Runs
import Mathlib.Data.List.Chain

/-!
# Cooldown of the edge machine

The machine stores the reading of its last transition, and zero stands for no
transition yet.  A return at reading zero is therefore not followed by a cooldown.
-/

namespace Kmwarp

open Foundation

def EdgeCall.nowMs : EdgeCall → Nat
  | .onLocalEvent _ nowMs | .onWireMessage _ nowMs => nowMs

/-- A change of the active side, with its clock reading. -/
structure Transition where
  entered : State
  nowMs : Nat
deriving DecidableEq

namespace StateMachine

variable (machine : StateMachine) (call : EdgeCall)

/-- The transition a call makes, if it makes one. -/
def transition? : Option Transition :=
  let next := (machine.call call).1
  if next.state = machine.state then none else some ⟨next.state, call.nowMs⟩

/-- A call crosses to the peer, returns from it, or makes no transition. -/
theorem transition?_cases :
    (∃ x y nowMs, call = .onLocalEvent (.cursorAt x y) nowMs ∧
      machine.state = .localActive ∧ machine.cooldownElapsed nowMs = true ∧
      asI32 machine.cfg.localScreenW ≤ x ∧
      machine.transition? call = some ⟨.remoteActive, nowMs⟩ ∧
      (machine.call call).1.lastTransitionMs = nowMs) ∨
    (∃ exitY nowMs, call = .onWireMessage (.releaseControl exitY) nowMs ∧
      machine.transition? call = some ⟨.localActive, nowMs⟩ ∧
      (machine.call call).1.lastTransitionMs = nowMs) ∨
    (machine.transition? call = none ∧
      (machine.call call).1.lastTransitionMs = machine.lastTransitionMs) := by
  cases call with
  | onLocalEvent event nowMs =>
      rcases machine.onLocalEvent_cases event nowMs with
        ⟨x, y, rfl, wasLocal, elapsed, beyond, crossed⟩ | ⟨msg, _, _, forwarded⟩ |
          ⟨cursor, kept⟩
      · refine .inl ⟨x, y, nowMs, rfl, wasLocal, elapsed, beyond, ?_, ?_⟩
        · simp [transition?, call, crossed, wasLocal, EdgeCall.nowMs]
        · simp [call, crossed]
      · refine .inr (.inr ⟨?_, ?_⟩)
        · simp [transition?, call, forwarded]
        · simp [call, forwarded]
      · refine .inr (.inr ⟨?_, ?_⟩)
        · simp [transition?, call, kept]
        · simp [call, kept]
  | onWireMessage msg nowMs =>
      rcases machine.onWireMessage_cases msg nowMs with
        ⟨exitY, rfl, wasRemote, left⟩ | kept
      · refine .inr (.inl ⟨exitY, nowMs, rfl, ?_, ?_⟩)
        · simp [transition?, call, left, wasRemote, EdgeCall.nowMs]
        · simp [call, left]
      · refine .inr (.inr ⟨?_, ?_⟩)
        · simp [transition?, call, kept]
        · simp [call, kept]

theorem cfg_call : (machine.call call).1.cfg = machine.cfg := by
  cases call with
  | onLocalEvent event nowMs =>
      rcases machine.onLocalEvent_cases event nowMs with
        ⟨_, _, _, _, _, _, crossed⟩ | ⟨_, _, _, forwarded⟩ | ⟨_, kept⟩
      · rw [call, crossed]
      · rw [call, forwarded]
      · rw [call, kept]
  | onWireMessage msg nowMs =>
      rcases machine.onWireMessage_cases msg nowMs with ⟨_, _, _, left⟩ | kept
      · rw [call, left]
      · rw [call, kept]

end StateMachine

/-- A machine with the last clock reading and its transitions so far. -/
structure EdgeRun where
  machine : StateMachine
  clockMs : Nat
  transitions : List Transition

namespace EdgeRun

def start (cfg : EdgeConfig) : EdgeRun where
  machine := .new cfg
  clockMs := 0
  transitions := []

/-- One call, at a reading no earlier than the last one. -/
def step (run : EdgeRun) (call : EdgeCall) : Option EdgeRun :=
  if run.clockMs ≤ call.nowMs then
    some {
      machine := (run.machine.call call).1
      clockMs := call.nowMs
      transitions := run.transitions ++ (run.machine.transition? call).toList }
  else none

/-- A transition to the peer comes at least the cooldown after the transition
before it. -/
def KeepsCooldown (cfg : EdgeConfig) (run : EdgeRun) : Prop :=
  run.transitions.IsChain fun earlier later =>
    later.entered = .remoteActive →
      earlier.nowMs + cfg.thrashCooldownMs.toNat ≤ later.nowMs

/-- After a return at reading zero, the cursor is at or beyond the edge only once
the reading has come to the cooldown. -/
def RestsAfterZero (cfg : EdgeConfig) (run : EdgeRun) : EdgeCall → Prop
  | .onLocalEvent (.cursorAt x _) nowMs =>
      run.machine.state = .localActive → run.transitions ≠ [] →
        run.machine.lastTransitionMs = 0 → asI32 cfg.localScreenW ≤ x →
          cfg.thrashCooldownMs.toNat ≤ nowMs
  | _ => True

/-- The stored reading is that of the last transition, or zero before the first. -/
structure Sound (cfg : EdgeConfig) (run : EdgeRun) : Prop where
  cfg : run.machine.cfg = cfg
  stored : ∀ last ∈ run.transitions.getLast?, run.machine.lastTransitionMs = last.nowMs
  past : run.machine.lastTransitionMs ≤ run.clockMs

variable {cfg : EdgeConfig} {run next : EdgeRun} {call : EdgeCall}

theorem sound_start (cfg : EdgeConfig) : Sound cfg (start cfg) where
  cfg := rfl
  stored := by simp [start]
  past := Nat.le_refl 0

theorem step_eq_some (stepped : run.step call = some next) :
    run.clockMs ≤ call.nowMs ∧ next.machine = (run.machine.call call).1 ∧
      next.clockMs = call.nowMs ∧
      next.transitions = run.transitions ++ (run.machine.transition? call).toList := by
  rw [step] at stepped
  split at stepped
  · rename_i later
    cases stepped
    exact ⟨later, rfl, rfl, rfl⟩
  · cases stepped

theorem sound_step (sound : Sound cfg run) (stepped : run.step call = some next) :
    Sound cfg next := by
  obtain ⟨later, machine, clock, transitions⟩ := step_eq_some stepped
  have sameCfg : next.machine.cfg = cfg := by
    rw [machine, StateMachine.cfg_call, sound.cfg]
  rcases run.machine.transition?_cases call with
    ⟨x, y, nowMs, rfl, _, _, _, crossed, storedNow⟩ | ⟨exitY, nowMs, rfl, left, storedNow⟩ |
      ⟨stays, storedBefore⟩
  · rw [crossed] at transitions
    constructor
    · exact sameCfg
    · simp [machine, transitions, storedNow]
    · rw [machine, clock, storedNow, EdgeCall.nowMs]
  · rw [left] at transitions
    constructor
    · exact sameCfg
    · simp [machine, transitions, storedNow]
    · rw [machine, clock, storedNow, EdgeCall.nowMs]
  · rw [stays] at transitions
    constructor
    · exact sameCfg
    · rw [machine, transitions, storedBefore, Option.toList_none, List.append_nil]
      exact sound.stored
    · rw [machine, clock, storedBefore]
      exact Nat.le_trans sound.past later

/-- A crossing keeps the cooldown exactly if it does not come too early after a
return at reading zero. -/
theorem cooldown_crossing_iff {nowMs : Nat} (sound : Sound cfg run)
    (later : run.clockMs ≤ nowMs) (elapsed : run.machine.cooldownElapsed nowMs = true) :
    (∀ last ∈ run.transitions.getLast?,
        last.nowMs + cfg.thrashCooldownMs.toNat ≤ nowMs) ↔
      (run.transitions ≠ [] → run.machine.lastTransitionMs = 0 →
        cfg.thrashCooldownMs.toNat ≤ nowMs) := by
  cases isLast : run.transitions.getLast? with
  | none =>
      have empty : run.transitions = [] := List.getLast?_eq_none_iff.mp isLast
      simp [empty]
  | some last =>
      have nonempty : run.transitions ≠ [] := by
        intro empty
        simp [empty] at isLast
      have stored : run.machine.lastTransitionMs = last.nowMs := sound.stored last isLast
      have past := sound.past
      simp only [Option.mem_def, Option.some.injEq, forall_eq', nonempty, ne_eq,
        not_false_eq_true, forall_const]
      rw [StateMachine.cooldownElapsed, sound.cfg, stored] at elapsed
      rw [stored] at past ⊢
      split at elapsed
      · rename_i zero
        simp [zero]
      · rename_i positive
        have rested := of_decide_eq_true elapsed
        simp only [positive, false_implies, iff_true]
        omega

theorem keepsCooldown_step_iff (sound : Sound cfg run) (keeps : run.KeepsCooldown cfg)
    (stepped : run.step call = some next) :
    next.KeepsCooldown cfg ↔ run.RestsAfterZero cfg call := by
  obtain ⟨later, _, _, transitions⟩ := step_eq_some stepped
  rw [KeepsCooldown] at keeps ⊢
  rcases run.machine.transition?_cases call with
    ⟨x, y, nowMs, rfl, wasLocal, elapsed, beyond, crossed, _⟩ |
      ⟨exitY, nowMs, rfl, left, _⟩ | ⟨stays, _⟩
  · rw [sound.cfg] at beyond
    rw [transitions, crossed, Option.toList_some, List.isChain_append]
    simp only [keeps, List.isChain_singleton, true_and, List.head?_cons, Option.mem_some_iff,
      forall_eq', forall_const, RestsAfterZero, wasLocal, beyond]
    exact cooldown_crossing_iff sound later elapsed
  · rw [transitions, left, Option.toList_some, List.isChain_append]
    simp [keeps, RestsAfterZero]
  · rw [transitions, stays, Option.toList_none, List.append_nil]
    refine iff_of_true keeps ?_
    cases call with
    | onWireMessage => trivial
    | onLocalEvent event nowMs =>
        cases event with
        | mouseRel | mouseButton | mouseWheel | key => trivial
        | cursorAt x y =>
            intro wasLocal _ zero beyond
            have elapsed : run.machine.cooldownElapsed nowMs = true := by
              rw [StateMachine.cooldownElapsed, if_pos zero]
            rw [← sound.cfg] at beyond
            have crossed :=
              run.machine.state_onLocalEvent_cursorAt wasLocal elapsed beyond y
            simp [StateMachine.transition?, StateMachine.call, crossed, wasLocal] at stays

end EdgeRun

/-- The cooldown holds after every transition of a run exactly if no return at
reading zero is followed too early by a cursor at or beyond the edge. -/
theorem keepsCooldown_iff_restsAfterZero (cfg : EdgeConfig) (calls : List EdgeCall) :
    Throughout EdgeRun.step (EdgeRun.KeepsCooldown cfg) (.start cfg) calls ↔
      Along EdgeRun.step (EdgeRun.RestsAfterZero cfg) (.start cfg) calls :=
  throughout_iff_along (fun _ _ _ => EdgeRun.sound_step)
    (fun _ _ _ => EdgeRun.keepsCooldown_step_iff) (EdgeRun.sound_start cfg) .nil

/-- With the default configuration control is lost again in the millisecond of its
return. -/
theorem not_keepsCooldown_returnAtZero :
    ¬ ∀ cfg calls,
      Throughout EdgeRun.step (EdgeRun.KeepsCooldown cfg) (.start cfg) calls := by
  intro always
  let calls : List EdgeCall :=
    [.onLocalEvent (.cursorAt 1920 300) 0, .onWireMessage (.releaseControl 300) 0,
      .onLocalEvent (.cursorAt 1920 300) 0]
  have ended : (exec EdgeRun.step (.start {}) calls).map EdgeRun.transitions =
      some [⟨.remoteActive, 0⟩, ⟨.localActive, 0⟩, ⟨.remoteActive, 0⟩] := by
    decide
  obtain ⟨final, reached, transitions⟩ := Option.map_eq_some_iff.mp ended
  have keeps : final.KeepsCooldown {} := final_of_throughout (always {} calls) reached
  rw [EdgeRun.KeepsCooldown, transitions] at keeps
  have rested := (List.isChain_cons_cons.mp (List.isChain_cons_cons.mp keeps).2).1 rfl
  revert rested
  decide

end Kmwarp
