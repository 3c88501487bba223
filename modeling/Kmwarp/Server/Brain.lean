import Kmwarp.Core.Edge
import Kmwarp.Core.KeyTracking

/-!
# Server edge brain

The brain drives the edge state machine and executes its actions.  An action
changes the key tracker and has a list of effects on the outbound channel, the
cursor, the swallow flag and the status; none of them feeds back, so the
effects of a step are a function of the brain and its input.
-/

namespace Kmwarp.Server

open Foundation Wire

inductive ServerStatus where
  | idle
  | listening (addr : String)
  | pairing (code : String)
  | connected (peer : String)
  | active (peer : String)
deriving DecidableEq

inductive BrainInput where
  | source (event : SourceEvent)
  | wireMessage (msg : Message)
deriving DecidableEq

inductive Effect where
  | enqueue (msg : Message)
  | warpCursorAbs (x y : Int)
  | hideCursor
  | showCursor
  | storeSwallow (value : Bool)
  | publishStatus (status : ServerStatus)
deriving DecidableEq

/-! ## Action executor -/

/-- Apply the configured remap to a key message, both its HID and its modifier
byte. -/
def remapKeyMessage (msg : Message) (remap : ModRemap) : Message :=
  match msg with
  | .keyEvent hidUsage state modifiers =>
      .keyEvent (remap.applyToHid hidUsage) state
        (remap.applyToModmask (.fromWire modifiers)).toWire
  | other => other

def releaseMessage (hid : UInt16) : Message :=
  .keyEvent hid KeyStateCode.up 0

/-- Release every tracked key on the peer. -/
def drainHeldToPeer (held : HeldKeys) : HeldKeys × List Effect :=
  let (hids, held) := held.drain
  (held, hids.map fun hid => .enqueue (releaseMessage hid))

def executeAction (remote : String) (modRemap : ModRemap) (held : HeldKeys) :
    Action → HeldKeys × List Effect
  | .sendTakeControl entryY => (held, [.enqueue (.takeControl entryY)])
  | .sendReleaseControl exitY => (held, [.enqueue (.releaseControl exitY)])
  | .sendMessage msg =>
      let remapped := remapKeyMessage msg modRemap
      (held.trackKey remapped, [.enqueue remapped])
  | .warpLocalCursor x y => (held, [.warpCursorAbs x y])
  | .hideLocalCursor => (held, [.hideCursor])
  | .showLocalCursor => (held, [.showCursor])
  | .startSwallow =>
      let (held, drained) := drainHeldToPeer held
      (held, drained ++ [.storeSwallow true, .publishStatus (.active remote)])
  | .stopSwallow =>
      let (held, drained) := drainHeldToPeer held
      (held, drained ++ [.storeSwallow false, .publishStatus (.connected remote)])

/-! ## Display geometry -/

/-- A display in the global coordinate space.  Bounds are half-open. -/
structure DisplayRect where
  originX : Int
  originY : Int
  width : Int
  height : Int
deriving DecidableEq

namespace DisplayRect

def right (rect : DisplayRect) : Int :=
  rect.originX + rect.width

def contains (rect : DisplayRect) (x y : Int) : Bool :=
  rect.originX ≤ x && x < rect.originX + rect.width &&
    rect.originY ≤ y && y < rect.originY + rect.height

end DisplayRect

def displayContaining (displays : List DisplayRect) (x y : Int) :
    Option DisplayRect :=
  displays.find? fun rect => rect.contains x y

/-! ## The brain task -/

/-- What a session's brain is started with. -/
structure BrainEnv where
  remote : String
  screenPx : UInt16 × UInt16
  displays : List DisplayRect
  modRemap : ModRemap

/-- One display, at the origin. -/
def singleDisplay : BrainEnv where
  remote := "peer"
  screenPx := (1920, 1080)
  displays := [⟨0, 0, 1920, 1080⟩]
  modRemap := {}

def BrainEnv.globalRight (env : BrainEnv) : Int :=
  env.screenPx.1.toNat

structure Brain where
  sm : StateMachine
  held : HeldKeys
  homeDisplayRight : Int

namespace Brain

def new (env : BrainEnv) : Brain where
  sm := .new
    { localScreenW := env.screenPx.1.toUInt32, localScreenH := env.screenPx.2.toUInt32 }
  held := .new
  homeDisplayRight := env.globalRight

/-- A cursor position is reported to the machine as a crossing exactly when the
cursor is at the right edge of the display it is on. -/
def smInput (env : BrainEnv) (brain : Brain) (input : BrainInput) :
    Brain × BrainInput :=
  match input with
  | .source (.cursorAt x y) =>
      match displayContaining env.displays x y with
      | some rect =>
          let dRight := saturateI32 rect.right
          if dRight - 1 ≤ x then
            ({ brain with homeDisplayRight := dRight },
              .source (.cursorAt env.globalRight y))
          else (brain, .source (.cursorAt 0 y))
      | none => (brain, input)
  | other => (brain, other)

/-- Warps land on the display the cursor came from. -/
def rewriteWarp (env : BrainEnv) (brain : Brain) : Action → Action
  | .warpLocalCursor smX y =>
      let offset := env.globalRight - smX
      .warpLocalCursor (wrapI32 (brain.homeDisplayRight - offset)) y
  | other => other

/-- Take one input from the channel: step the machine and decide the actions,
with none of them executed. -/
def receive (env : BrainEnv) (brain : Brain) (input : BrainInput) (nowMs : Nat) :
    Brain × List Action :=
  let (brain, input) := brain.smInput env input
  let (sm, actions) :=
    match input with
    | .source event => brain.sm.onLocalEvent event nowMs
    | .wireMessage msg => brain.sm.onWireMessage msg nowMs
  let brain := { brain with sm := sm }
  (brain, actions.map (brain.rewriteWarp env))

def perform (env : BrainEnv) (brain : Brain) (action : Action) :
    Brain × List Effect :=
  let (held, effects) := executeAction env.remote env.modRemap brain.held action
  ({ brain with held := held }, effects)

def performAll (env : BrainEnv) (brain : Brain) : List Action → Brain × List Effect
  | [] => (brain, [])
  | action :: actions =>
      let (brain, effects) := brain.perform env action
      let (brain, later) := brain.performAll env actions
      (brain, effects ++ later)

/-- One iteration of `edge_brain_task`. -/
def step (env : BrainEnv) (brain : Brain) (input : BrainInput) (nowMs : Nat) :
    Brain × List Effect :=
  let (brain, actions) := brain.receive env input nowMs
  brain.performAll env actions

/-- Whether the brain crosses to the peer on this input. -/
def crosses (env : BrainEnv) (brain : Brain) (input : BrainInput) (nowMs : Nat) : Bool :=
  match (brain.smInput env input).2 with
  | .source (.cursorAt x _) =>
      brain.sm.state = .localActive && brain.sm.cooldownElapsed nowMs &&
        asI32 brain.sm.cfg.localScreenW ≤ x
  | _ => false

end Brain

/-! ## Effects on the outbound channel -/

def Effect.sent? : Effect → Option Message
  | .enqueue msg => some msg
  | _ => none

/-- The messages a list of effects offers to the outbound channel. -/
def sends (effects : List Effect) : List Message :=
  effects.filterMap Effect.sent?

@[simp] theorem sends_nil : sends [] = [] := rfl

@[simp] theorem sends_append (first second : List Effect) :
    sends (first ++ second) = sends first ++ sends second :=
  List.filterMap_append

@[simp] theorem sends_cons (effect : Effect) (effects : List Effect) :
    sends (effect :: effects) = effect.sent?.toList ++ sends effects := by
  cases sent : effect.sent? <;> simp [sends, sent]

/-- A drain has no effects but on the channel. -/
theorem filterMap_drain {β : Type} {select : Effect → Option β}
    (silent : ∀ msg, select (.enqueue msg) = none) (held : HeldKeys) :
    (drainHeldToPeer held).2.filterMap select = [] := by
  simp [drainHeldToPeer, List.filterMap_map, silent]

/-- The messages of a drain. -/
def drainMessages (held : HeldKeys) : List Message :=
  held.drain.1.map releaseMessage

@[simp] theorem sends_drain (held : HeldKeys) :
    sends (drainHeldToPeer held).2 = drainMessages held := by
  simp only [drainHeldToPeer, drainMessages, sends, List.filterMap_map]
  exact congrFun List.filterMap_eq_map' held.drain.1

theorem keyLog_drainMessages (held : HeldKeys) :
    keyLog (drainMessages held) = releases held.drain.1 := by
  simp only [drainMessages, releases, keyLog, List.filterMap_map]
  exact congrFun List.filterMap_eq_map' held.drain.1

theorem drainMessages_eq_nil {held : HeldKeys} (empty : ∀ hid, hid ∉ held) :
    drainMessages held = [] := by
  rw [drainMessages, HeldKeys.drain_eq_nil_iff.mpr empty, List.map_nil]

/-! ## What one step can do -/

/-- The four ways an input is received. -/
inductive Received (brain : Brain) : BrainInput → Brain → List Action → Prop where
  | crossing {next : Brain} {cursorX cursorY backX backY : Int} {entryY : UInt16}
      (wasLocal : brain.sm.state = .localActive)
      (isRemote : next.sm.state = .remoteActive)
      (sameHeld : next.held = brain.held) :
      Received brain (.source (.cursorAt cursorX cursorY)) next
        [.sendTakeControl entryY, .warpLocalCursor backX backY, .hideLocalCursor,
          .startSwallow]
  | forwarding {event : SourceEvent} {msg : Message}
      (converted : sourceEventToMessage event = some msg)
      (isRemote : brain.sm.state = .remoteActive) :
      Received brain (.source event) brain [.sendMessage msg]
  | leaving {next : Brain} {exitY : UInt16} {returnX returnY : Int}
      (wasRemote : brain.sm.state = .remoteActive)
      (isLocal : next.sm.state = .localActive)
      (sameHeld : next.held = brain.held) :
      Received brain (.wireMessage (.releaseControl exitY)) next
        [.stopSwallow, .showLocalCursor, .warpLocalCursor returnX returnY]
  | silent {input : BrainInput} {next : Brain}
      (sameState : next.sm.state = brain.sm.state)
      (sameHeld : next.held = brain.held) :
      Received brain input next []

/-- Only executing an action changes the tracker. -/
theorem Received.sameHeld {brain next : Brain} {input : BrainInput} {actions : List Action}
    (received : Received brain input next actions) : next.held = brain.held := by
  cases received with
  | crossing _ _ sameHeld => exact sameHeld
  | forwarding => rfl
  | leaving _ _ sameHeld => exact sameHeld
  | silent _ sameHeld => exact sameHeld

namespace Brain

theorem smInput_eq_of_converted (env : BrainEnv) (brain : Brain) {event : SourceEvent}
    {msg : Message} (converted : sourceEventToMessage event = some msg) :
    brain.smInput env (.source event) = (brain, .source event) := by
  cases event with
  | cursorAt x y => cases converted
  | mouseRel | mouseButton | mouseWheel | key => rfl

/-- Rewriting the input touches neither the machine nor the tracker, and a
cursor position stays one. -/
theorem smInput_source (env : BrainEnv) (brain : Brain) (event : SourceEvent) :
    ∃ home reported, brain.smInput env (.source event) =
        ({ brain with homeDisplayRight := home }, .source reported) ∧
      (reported = event ∨
        ∃ x y reportedX, event = .cursorAt x y ∧ reported = .cursorAt reportedX y) := by
  cases event with
  | cursorAt x y =>
      cases found : displayContaining env.displays x y with
      | none =>
          refine ⟨brain.homeDisplayRight, .cursorAt x y, ?_, .inl rfl⟩
          simp only [smInput, found]
      | some rect =>
          by_cases edge : saturateI32 rect.right - 1 ≤ x
          · refine ⟨saturateI32 rect.right, .cursorAt env.globalRight y, ?_,
              .inr ⟨x, y, _, rfl, rfl⟩⟩
            simp only [smInput, found, if_pos edge]
          · refine ⟨brain.homeDisplayRight, .cursorAt 0 y, ?_,
              .inr ⟨x, y, _, rfl, rfl⟩⟩
            simp only [smInput, found, if_neg edge]
  | mouseRel | mouseButton | mouseWheel | key =>
      exact ⟨brain.homeDisplayRight, _, rfl, .inl rfl⟩

/-- A source event is received as the event it is rewritten to. -/
theorem receive_source {env : BrainEnv} {brain : Brain} {event reported : SourceEvent}
    {home : Int}
    (rewritten : brain.smInput env (.source event) =
      ({ brain with homeDisplayRight := home }, .source reported)) (nowMs : Nat) :
    brain.receive env (.source event) nowMs =
      let (sm, actions) := brain.sm.onLocalEvent reported nowMs
      let next : Brain := { brain with homeDisplayRight := home, sm := sm }
      (next, actions.map (next.rewriteWarp env)) := by
  rw [receive, rewritten]

theorem receive_wireMessage (env : BrainEnv) (brain : Brain) (msg : Message) (nowMs : Nat) :
    brain.receive env (.wireMessage msg) nowMs =
      let (sm, actions) := brain.sm.onWireMessage msg nowMs
      ({ brain with sm := sm }, actions.map ({ brain with sm := sm }.rewriteWarp env)) :=
  rfl

theorem received (env : BrainEnv) (brain : Brain) (input : BrainInput)
    (nowMs : Nat) :
    Received brain input (brain.receive env input nowMs).1
      (brain.receive env input nowMs).2 := by
  cases input with
  | wireMessage msg =>
      have result := brain.receive_wireMessage env msg nowMs
      rcases brain.sm.onWireMessage_cases msg nowMs with
        ⟨exitY, rfl, wasRemote, stepped⟩ | stepped
      · rw [result, stepped]
        exact .leaving wasRemote rfl rfl
      · rw [result, stepped]
        exact .silent rfl rfl
  | source event =>
      obtain ⟨home, reported, rewritten, origin⟩ := brain.smInput_source env event
      have result := receive_source rewritten nowMs
      rcases brain.sm.onLocalEvent_cases reported nowMs with
        ⟨x, y, isCursor, wasLocal, _, _, stepped⟩ | ⟨msg, converted, isRemote, stepped⟩ |
        ⟨cursor, stepped⟩
      · obtain ⟨cursorX, cursorY, rfl⟩ : ∃ x y, event = .cursorAt x y := by
          rcases origin with same | ⟨x, y, _, isCursorAt, _⟩
          · exact ⟨x, y, same ▸ isCursor⟩
          · exact ⟨x, y, isCursorAt⟩
        rw [result, stepped]
        exact .crossing wasLocal rfl rfl
      · have same : reported = event := by
          rcases origin with same | ⟨x, y, reportedX, _, isCursorAt⟩
          · exact same
          · rw [isCursorAt] at converted
            cases converted
        subst same
        rw [smInput_eq_of_converted env brain converted] at rewritten
        have unchanged : { brain with homeDisplayRight := home } = brain :=
          (congrArg Prod.fst rewritten).symm
        rw [result, stepped]
        have next : { brain with homeDisplayRight := home, sm := brain.sm } = brain :=
          unchanged
        simp only [next, List.map_cons, List.map_nil, rewriteWarp]
        exact .forwarding converted isRemote
      · rw [result, stepped]
        exact .silent rfl rfl

end Brain

/-- The four turns a step of the brain can take. -/
inductive BrainTurn (env : BrainEnv) (brain : Brain) :
    BrainInput → Brain → List Effect → Prop where
  | crossing {next : Brain} {cursorX cursorY backX backY : Int} {entryY : UInt16}
      (wasLocal : brain.sm.state = .localActive)
      (isRemote : next.sm.state = .remoteActive)
      (drained : next.held = brain.held.drain.2) :
      BrainTurn env brain (.source (.cursorAt cursorX cursorY)) next
        ([.enqueue (.takeControl entryY), .warpCursorAbs backX backY, .hideCursor] ++
          (drainHeldToPeer brain.held).2 ++
            [.storeSwallow true, .publishStatus (.active env.remote)])
  | forwarding {event : SourceEvent} {msg : Message}
      (converted : sourceEventToMessage event = some msg)
      (isRemote : brain.sm.state = .remoteActive) :
      BrainTurn env brain (.source event)
        { brain with held := brain.held.trackKey (remapKeyMessage msg env.modRemap) }
        [.enqueue (remapKeyMessage msg env.modRemap)]
  | leaving {next : Brain} {exitY : UInt16} {returnX returnY : Int}
      (wasRemote : brain.sm.state = .remoteActive)
      (isLocal : next.sm.state = .localActive)
      (drained : next.held = brain.held.drain.2) :
      BrainTurn env brain (.wireMessage (.releaseControl exitY)) next
        ((drainHeldToPeer brain.held).2 ++
          [.storeSwallow false, .publishStatus (.connected env.remote), .showCursor,
            .warpCursorAbs returnX returnY])
  | silent {input : BrainInput} {next : Brain}
      (sameState : next.sm.state = brain.sm.state)
      (sameHeld : next.held = brain.held) :
      BrainTurn env brain input next []

theorem Brain.turn (env : BrainEnv) (brain : Brain) (input : BrainInput)
    (nowMs : Nat) :
    BrainTurn env brain input (brain.step env input nowMs).1
      (brain.step env input nowMs).2 := by
  have received := brain.received env input nowMs
  rw [step]
  generalize brain.receive env input nowMs = result at received
  obtain ⟨next, actions⟩ := result
  change BrainTurn env brain input (next.performAll env actions).1
    (next.performAll env actions).2
  cases received with
  | @crossing _ _ _ backX backY entryY wasLocal isRemote sameHeld =>
      have performed : next.performAll env
          [.sendTakeControl entryY, .warpLocalCursor backX backY, .hideLocalCursor,
            .startSwallow] =
          ({ next with held := next.held.drain.2 },
            [.enqueue (.takeControl entryY), .warpCursorAbs backX backY, .hideCursor] ++
              (drainHeldToPeer next.held).2 ++
                [.storeSwallow true, .publishStatus (.active env.remote)]) := by
        simp [performAll, perform, executeAction, drainHeldToPeer]
      rw [performed, sameHeld]
      exact .crossing wasLocal isRemote rfl
  | forwarding converted isRemote =>
      exact .forwarding converted isRemote
  | @leaving _ _ returnX returnY wasRemote isLocal sameHeld =>
      have performed : next.performAll env
          [.stopSwallow, .showLocalCursor, .warpLocalCursor returnX returnY] =
          ({ next with held := next.held.drain.2 },
            (drainHeldToPeer next.held).2 ++
              [.storeSwallow false, .publishStatus (.connected env.remote), .showCursor,
                .warpCursorAbs returnX returnY]) := by
        simp [performAll, perform, executeAction, drainHeldToPeer]
      rw [performed, sameHeld]
      exact .leaving wasRemote isLocal rfl
  | silent sameState sameHeld =>
      exact .silent sameState sameHeld

/-- A turn that ends in local control returns it, or is silent. -/
theorem BrainTurn.of_local {env : BrainEnv} {brain next : Brain} {input : BrainInput}
    {effects : List Effect} (turn : BrainTurn env brain input next effects)
    (isLocal : next.sm.state = .localActive) :
    ((∃ exitY, input = .wireMessage (.releaseControl exitY)) ∧
        brain.sm.state = .remoteActive ∧ next.held = brain.held.drain.2 ∧
          sends effects = drainMessages brain.held) ∨
      (brain.sm.state = .localActive ∧ next.held = brain.held ∧ sends effects = []) := by
  cases turn with
  | crossing _ isRemote _ =>
      rw [isRemote] at isLocal
      cases isLocal
  | forwarding _ isRemote =>
      rw [isRemote] at isLocal
      cases isLocal
  | leaving wasRemote _ drained =>
      exact .inl ⟨⟨_, rfl⟩, wasRemote, drained, by simp [Effect.sent?]⟩
  | silent sameState sameHeld =>
      exact .inr ⟨sameState ▸ isLocal, sameHeld, rfl⟩

theorem Brain.sm_performAll (env : BrainEnv) (brain : Brain) (actions : List Action) :
    (brain.performAll env actions).1.sm = brain.sm := by
  induction actions generalizing brain with
  | nil => rfl
  | cons action actions ih => exact ih (brain.perform env action).1

/-- Control leaves the Mac exactly on the inputs that cross. -/
theorem Brain.crosses_iff (env : BrainEnv) (brain : Brain) (input : BrainInput)
    (nowMs : Nat) :
    brain.crosses env input nowMs = true ↔
      brain.sm.state = .localActive ∧
        (brain.step env input nowMs).1.sm.state = .remoteActive := by
  rw [step, sm_performAll]
  cases input with
  | wireMessage msg =>
      constructor
      · intro crosses
        cases crosses
      · rintro ⟨wasLocal, isRemote⟩
        have stepped : (brain.sm.onWireMessage msg nowMs).1.state = .remoteActive :=
          isRemote
        rcases brain.sm.onWireMessage_cases msg nowMs with
          ⟨_, _, wasRemote, _⟩ | ignored
        · exact absurd (wasLocal.symm.trans wasRemote) (by decide)
        · rw [ignored] at stepped
          exact absurd (wasLocal.symm.trans stepped) (by decide)
  | source event =>
      obtain ⟨home, reported, rewritten, _⟩ := brain.smInput_source env event
      have received : (brain.receive env (.source event) nowMs).1.sm =
          (brain.sm.onLocalEvent reported nowMs).1 := by
        rw [receive, rewritten]
      rw [received, crosses, rewritten]
      rcases brain.sm.onLocalEvent_cases reported nowMs with
        ⟨x, y, rfl, wasLocal, elapsed, beyond, crossed⟩ | ⟨_, converted, wasRemote, _⟩ |
        ⟨_, ignored⟩
      · rw [crossed]
        simp [wasLocal, elapsed, beyond]
      · rw [wasRemote]
        cases reported <;> simp
      · rw [ignored]
        constructor
        · intro crosses
          split at crosses
          · rename_i x y isCursor
            cases isCursor
            simp only [Bool.and_eq_true, decide_eq_true_eq] at crosses
            obtain ⟨⟨wasLocal, elapsed⟩, beyond⟩ := crosses
            have crossed :=
              StateMachine.state_onLocalEvent_cursorAt wasLocal elapsed beyond y
            rw [ignored, wasLocal] at crossed
            cases crossed
          · cases crosses
        · rintro ⟨wasLocal, isRemote⟩
          exact absurd (wasLocal.symm.trans isRemote) (by decide)

/-- A release leaves the brain local, also when it was already. -/
theorem Brain.state_step_releaseControl (env : BrainEnv) (brain : Brain)
    (exitY : UInt16) (nowMs : Nat) :
    (brain.step env (.wireMessage (.releaseControl exitY)) nowMs).1.sm.state =
      .localActive := by
  rw [step, sm_performAll]
  change (brain.sm.onWireMessage (.releaseControl exitY) nowMs).1.state = .localActive
  rcases brain.sm.onWireMessage_cases (.releaseControl exitY) nowMs with
    ⟨_, _, _, returned⟩ | ignored
  · rw [returned]
  · cases isState : brain.sm.state with
    | localActive => rw [ignored, isState]
    | remoteActive => simp [StateMachine.onWireMessage, isState] at ignored

end Kmwarp.Server
