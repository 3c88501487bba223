import Kmwarp.Core.Wire.Convert

/-!
# Edge-crossing state machine

The toggle that decides whether the Mac's input drives the Mac or the peer.
It is fed local events and wire messages together with a clock reading and
returns an ordered list of actions for the runtime.
-/

namespace Kmwarp

open Wire

inductive State where
  | localActive
  | remoteActive
deriving DecidableEq, Repr

structure EdgeConfig where
  localScreenW : UInt32 := 1920
  localScreenH : UInt32 := 1080
  remoteScreenW : UInt32 := 2560
  remoteScreenH : UInt32 := 1440
  thrashCooldownMs : UInt32 := 50
  backWarpPx : Int32 := 5
deriving DecidableEq, Repr

inductive Action where
  | sendTakeControl (entryY : UInt16)
  | sendReleaseControl (exitY : UInt16)
  | warpLocalCursor (x y : Int)
  | hideLocalCursor
  | showLocalCursor
  | startSwallow
  | stopSwallow
  | sendMessage (msg : Message)
deriving DecidableEq

structure StateMachine where
  state : State
  cfg : EdgeConfig
  lastTransitionMs : Nat
  lastCursor : Int × Int
deriving DecidableEq

/-- `as i32`. -/
def asI32 (value : UInt32) : Int :=
  value.toInt32.toInt

def saturateI32 (value : Int) : Int :=
  max (-2147483648) (min value 2147483647)

/-- What an `i32` operation without overflow checks makes of its exact result. -/
def wrapI32 (value : Int) : Int :=
  (value + 2147483648) % 4294967296 - 2147483648

/-- `i32::saturating_sub`. -/
def saturatingSub (left right : Int) : Int :=
  saturateI32 (left - right)

def clampToU16 (value : Int) : UInt16 :=
  UInt16.ofNat (max 0 (min value 65535)).toNat

namespace StateMachine

def new (cfg : EdgeConfig) : StateMachine where
  state := .localActive
  cfg := cfg
  lastTransitionMs := 0
  lastCursor := ((asI32 cfg.localScreenW).tdiv 2, (asI32 cfg.localScreenH).tdiv 2)

/-- The first transition has no cooldown. -/
def cooldownElapsed (machine : StateMachine) (nowMs : Nat) : Bool :=
  if machine.lastTransitionMs = 0 then true
  else machine.cfg.thrashCooldownMs.toNat ≤ nowMs - machine.lastTransitionMs

def onLocalEvent (machine : StateMachine) (event : SourceEvent) (nowMs : Nat) :
    StateMachine × List Action :=
  match machine.state, event with
  | .localActive, .cursorAt x y =>
      let machine := { machine with lastCursor := (x, y) }
      if !machine.cooldownElapsed nowMs then (machine, [])
      else if asI32 machine.cfg.localScreenW ≤ x then
        let entryY := clampToU16 y
        let backX :=
          saturatingSub (asI32 machine.cfg.localScreenW) machine.cfg.backWarpPx.toInt
        ({ machine with state := .remoteActive, lastTransitionMs := nowMs },
          [.sendTakeControl entryY, .warpLocalCursor backX y, .hideLocalCursor,
            .startSwallow])
      else (machine, [])
  | .localActive, _ => (machine, [])
  | .remoteActive, .cursorAt x y => ({ machine with lastCursor := (x, y) }, [])
  | .remoteActive, event =>
      match sourceEventToMessage event with
      | some msg => (machine, [.sendMessage msg])
      | none => (machine, [])

/-- The cooldown does not apply to a release. -/
def onWireMessage (machine : StateMachine) (msg : Message) (nowMs : Nat) :
    StateMachine × List Action :=
  match msg with
  | .releaseControl exitY =>
      if machine.state ≠ .remoteActive then (machine, [])
      else
        let edgeX := saturatingSub (asI32 machine.cfg.localScreenW) 1
        ({ machine with state := .localActive, lastTransitionMs := nowMs },
          [.stopSwallow, .showLocalCursor, .warpLocalCursor edgeX exitY.toNat])
  | _ => (machine, [])

/-! ## What one call can do -/

/-- A local event crosses to the peer, is forwarded to it, or has no action
and leaves the state as it is. -/
theorem onLocalEvent_cases (machine : StateMachine) (event : SourceEvent)
    (nowMs : Nat) :
    (∃ x y, event = .cursorAt x y ∧ machine.state = .localActive ∧
      machine.cooldownElapsed nowMs = true ∧ asI32 machine.cfg.localScreenW ≤ x ∧
      machine.onLocalEvent event nowMs =
        ({ machine with
            state := .remoteActive
            lastTransitionMs := nowMs
            lastCursor := (x, y) },
          [.sendTakeControl (clampToU16 y),
            .warpLocalCursor
              (saturatingSub (asI32 machine.cfg.localScreenW)
                machine.cfg.backWarpPx.toInt) y,
            .hideLocalCursor, .startSwallow])) ∨
      (∃ msg, sourceEventToMessage event = some msg ∧
        machine.state = .remoteActive ∧
        machine.onLocalEvent event nowMs = (machine, [.sendMessage msg])) ∨
      ∃ cursor, machine.onLocalEvent event nowMs =
        ({ machine with lastCursor := cursor }, []) := by
  rcases machine with ⟨state, cfg, lastTransitionMs, lastCursor⟩
  cases state with
  | localActive =>
      cases event with
      | cursorAt x y =>
          let moved : StateMachine := ⟨.localActive, cfg, lastTransitionMs, (x, y)⟩
          by_cases elapsed : moved.cooldownElapsed nowMs = true
          · by_cases beyond : asI32 cfg.localScreenW ≤ x
            · refine .inl ⟨x, y, rfl, rfl, elapsed, beyond, ?_⟩
              simp only [moved] at elapsed
              simp [onLocalEvent, elapsed, beyond]
            · refine .inr (.inr ⟨(x, y), ?_⟩)
              simp [onLocalEvent, beyond]
          · refine .inr (.inr ⟨(x, y), ?_⟩)
            simp only [moved] at elapsed
            simp [onLocalEvent, elapsed]
      | mouseRel dx dy | mouseButton button state | mouseWheel dx dy
      | key hidUsage state mods =>
          exact .inr (.inr ⟨lastCursor, rfl⟩)
  | remoteActive =>
      cases event with
      | cursorAt x y => exact .inr (.inr ⟨(x, y), rfl⟩)
      | mouseRel dx dy | mouseButton button state | mouseWheel dx dy
      | key hidUsage state mods =>
          exact .inr (.inl ⟨_, rfl, rfl, rfl⟩)

/-- A cursor beyond the edge crosses once the cooldown has passed. -/
theorem state_onLocalEvent_cursorAt {machine : StateMachine} {x : Int} {nowMs : Nat}
    (wasLocal : machine.state = .localActive)
    (elapsed : machine.cooldownElapsed nowMs = true)
    (beyond : asI32 machine.cfg.localScreenW ≤ x) (y : Int) :
    (machine.onLocalEvent (.cursorAt x y) nowMs).1.state = .remoteActive := by
  rcases machine with ⟨state, cfg, lastTransitionMs, lastCursor⟩
  subst wasLocal
  have elapsedMoved : (⟨.localActive, cfg, lastTransitionMs, (x, y)⟩ :
      StateMachine).cooldownElapsed nowMs = true := elapsed
  simp only [onLocalEvent, elapsedMoved, Bool.not_true, Bool.false_eq_true, if_false,
    if_pos beyond]

/-- A wire message ends the peer's turn, or does nothing. -/
theorem onWireMessage_cases (machine : StateMachine) (msg : Message)
    (nowMs : Nat) :
    (∃ exitY, msg = .releaseControl exitY ∧ machine.state = .remoteActive ∧
      machine.onWireMessage msg nowMs =
        ({ machine with state := .localActive, lastTransitionMs := nowMs },
          [.stopSwallow, .showLocalCursor,
            .warpLocalCursor (saturatingSub (asI32 machine.cfg.localScreenW) 1)
              exitY.toNat])) ∨
      machine.onWireMessage msg nowMs = (machine, []) := by
  cases msg
  case releaseControl exitY =>
    by_cases active : machine.state = .remoteActive
    · exact .inl ⟨exitY, rfl, active, by simp [onWireMessage, active]⟩
    · exact .inr (by simp [onWireMessage, active])
  all_goals exact .inr rfl

end StateMachine

end Kmwarp
