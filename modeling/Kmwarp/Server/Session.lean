import Kmwarp.Server.Console

/-!
# Session teardown

`handle_peer` waits for the first of its tasks to exit, drains the held keys,
aborts the other tasks and returns.  A task is cancelled only where it waits,
so the brain is never cut between the effects of one input.
-/

namespace Kmwarp.Server

open Foundation Wire

/-! ## The local cursor -/

/-- How often the cursor has been hidden without being shown again, and
whether it follows the mouse. -/
structure Cursor where
  hides : Nat
  associated : Bool
deriving DecidableEq

namespace Cursor

def shown : Cursor := ⟨0, true⟩

def hidden : Cursor := ⟨1, false⟩

/-- A failed warp leaves the association as it is. -/
def warpCursorAbs (cursor : Cursor) (warpOk : Bool) : Cursor :=
  if warpOk then { cursor with associated := true } else cursor

def hideCursor (cursor : Cursor) : Cursor :=
  ⟨cursor.hides + 1, false⟩

def showCursor (cursor : Cursor) : Cursor :=
  ⟨cursor.hides - 1, true⟩

def apply (cursor : Cursor) (warpOk : Bool) : Effect → Cursor
  | .warpCursorAbs _ _ => cursor.warpCursorAbs warpOk
  | .hideCursor => cursor.hideCursor
  | .showCursor => cursor.showCursor
  | _ => cursor

end Cursor

/-! ## The task set -/

inductive Task where
  | encoder
  | heartbeat
  | sourceForwarder
  | brain
  | clipboardOut
  | clipboardIn
  | reader
  | deadlineWatcher
deriving DecidableEq

inductive Phase where
  | running
  | draining
  | drained
  | aborting
  | returned
deriving DecidableEq

structure Session where
  console : Console
  cursor : Cursor
  tapInstalled : Bool
  alive : List Task
  exited : Bool
  phase : Phase

inductive SessionLabel where
  | console (label : ConsoleLabel) (warpOk : Bool)
  | exit (task : Task)
  | waitForFirstExit
  | drainHeldOnDisconnect
  | abortAll
  | cancel (task : Task)
  | handlePeerReturns

namespace Session

/-- Without a tap there is neither a source forwarder nor a brain. -/
def start (env : BrainEnv) (history : List (KeyTransition UInt16))
    (tapInstalled clipboardInstalled : Bool) : Session where
  console := .start env history
  cursor := .shown
  tapInstalled := tapInstalled
  alive :=
    [.encoder, .heartbeat, .reader, .deadlineWatcher] ++
      (if tapInstalled then [.sourceForwarder, .brain] else []) ++
        if clipboardInstalled then [.clipboardOut, .clipboardIn] else []
  exited := false
  phase := .running

/-- The task whose progress a step of the console is. -/
def enabled (session : Session) : ConsoleLabel → Bool
  | .tapSend _ | .tapReturn => session.tapInstalled
  | .forwardSource => session.alive.contains .sourceForwarder
  | .wireMessage _ => session.alive.contains .reader
  | .receive _ | .perform | .effect => session.alive.contains .brain

/-- The task waits: the brain for its next input, the source forwarder with no
callback for its tap thread to finish. -/
def waiting (session : Session) : Task → Bool
  | .brain => session.console.actions = [] ∧ session.console.effects = []
  | .sourceForwarder => session.console.callback = none
  | _ => true

/-- The brain exits by itself only when its channel is closed and empty. -/
def mayExit (session : Session) (task : Task) : Bool :=
  session.alive.contains task && session.waiting task &&
    (task != .brain ||
      (session.console.brainQueue.items = [] && !session.alive.contains .sourceForwarder &&
        !session.alive.contains .reader))

/-- The source forwarder owns the tap. -/
def remove (session : Session) (task : Task) : Session :=
  { session with
    alive := session.alive.filter (· != task)
    tapInstalled := session.tapInstalled && task != .sourceForwarder }

/-- The cursor after a step of the console. -/
def cursorAfter (session : Session) (label : ConsoleLabel) (warpOk : Bool) : Cursor :=
  match label, session.console.effects with
  | .effect, effect :: _ => session.cursor.apply warpOk effect
  | _, _ => session.cursor

def step (env : BrainEnv) (session : Session) : SessionLabel → Option Session
  | .console label warpOk =>
      if session.enabled label then
        match session.console.step env label with
        | none => none
        | some console =>
            some { session with
              console := console
              cursor := session.cursorAfter label warpOk }
      else none
  | .exit task =>
      if session.mayExit task then some { session.remove task with exited := true }
      else none
  | .waitForFirstExit =>
      if session.phase = .running ∧ session.exited = true then
        some { session with phase := .draining }
      else none
  | .drainHeldOnDisconnect =>
      if session.phase = .draining then
        let brain := session.console.brain
        some { session with
          phase := .drained
          console := { session.console with
            brain := { brain with held := brain.held.drain.2 } } }
      else none
  | .abortAll =>
      if session.phase = .drained then some { session with phase := .aborting } else none
  | .cancel task =>
      if session.phase = .aborting ∧ session.alive.contains task ∧ session.waiting task then
        some (session.remove task)
      else none
  | .handlePeerReturns =>
      if session.phase = .aborting ∧ session.alive = [] then
        some { session with phase := .returned }
      else none

/-- The cursor is visible and follows the mouse, and no tap swallows. -/
def GivenBack (session : Session) : Prop :=
  session.cursor = .shown ∧ ¬ (session.tapInstalled = true ∧ session.console.swallow = true)

instance (session : Session) : Decidable session.GivenBack :=
  inferInstanceAs (Decidable (_ ∧ _))

end Session

/-! ## The cursor follows the machine -/

/-- What the cursor is when nothing is left to perform. -/
def cursorOf : State → Cursor
  | .localActive => .shown
  | .remoteActive => .hidden

/-- The effects of an action on the cursor. -/
def cursorEffects : Action → List Effect
  | .warpLocalCursor x y => [.warpCursorAbs x y]
  | .hideLocalCursor => [.hideCursor]
  | .showLocalCursor => [.showCursor]
  | _ => []

/-- Performing the effects ends in the target, whichever warps fail. -/
def Settles (target : Cursor) : Cursor → List Effect → Prop
  | cursor, [] => cursor = target
  | cursor, effect :: effects =>
      ∀ warpOk, Settles target (cursor.apply warpOk effect) effects

/-- Effects without influence on the cursor can be left out. -/
theorem settles_append_of_inert {target cursor : Cursor} {first : List Effect}
    (inert : ∀ effect ∈ first, ∀ cursor warpOk, Cursor.apply cursor warpOk effect = cursor)
    (second : List Effect) :
    Settles target cursor (first ++ second) ↔ Settles target cursor second := by
  induction first with
  | nil => rfl
  | cons effect first ih =>
      obtain ⟨here, later⟩ := List.forall_mem_cons.mp inert
      simp only [List.cons_append, Settles, here, ih later]
      exact ⟨fun all => all true, fun holds _ => holds⟩

theorem inert_drain {held : HeldKeys} {effect : Effect}
    (member : effect ∈ (drainHeldToPeer held).2) (cursor : Cursor) (warpOk : Bool) :
    cursor.apply warpOk effect = cursor := by
  obtain ⟨hid, _, rfl⟩ := List.mem_map.mp member
  rfl

/-- Executing an action has its cursor effects and inert ones. -/
theorem settles_executeAction {target cursor : Cursor} {remote : String}
    {modRemap : ModRemap} {held : HeldKeys} {action : Action} {later : List Effect} :
    Settles target cursor ((executeAction remote modRemap held action).2 ++ later) ↔
      Settles target cursor (cursorEffects action ++ later) := by
  cases action with
  | warpLocalCursor | hideLocalCursor | showLocalCursor => rfl
  | sendTakeControl | sendReleaseControl | sendMessage =>
      exact settles_append_of_inert (by simp [executeAction, Cursor.apply]) later
  | startSwallow | stopSwallow =>
      refine settles_append_of_inert (fun effect member cursor warpOk => ?_) later
      rcases List.mem_append.mp member with drained | other
      · exact inert_drain drained cursor warpOk
      · simp only [List.mem_cons, List.not_mem_nil, or_false] at other
        rcases other with rfl | rfl <;> rfl

namespace Session

/-- What is left to perform on the cursor. -/
def pending (console : Console) : List Effect :=
  console.effects ++ console.actions.flatMap cursorEffects

/-- The cursor will be what the machine says, a dead brain has nothing left to
perform, and only a live source forwarder has a tap. -/
structure Orderly (session : Session) : Prop where
  settles : Settles (cursorOf session.console.brain.sm.state) session.cursor
    (pending session.console)
  brainDone : Task.brain ∉ session.alive →
    session.console.actions = [] ∧ session.console.effects = []
  tapOwned : session.tapInstalled = true → Task.sourceForwarder ∈ session.alive

theorem orderly_start (env : BrainEnv) (history : List (KeyTransition UInt16))
    (tapInstalled clipboardInstalled : Bool) :
    Orderly (start env history tapInstalled clipboardInstalled) where
  settles := rfl
  brainDone _ := ⟨rfl, rfl⟩
  tapOwned isInstalled := by
    have installed : tapInstalled = true := isInstalled
    simp [start, installed]

/-- A received input turns the cursor over exactly when it turns the machine
over. -/
theorem settles_received {brain next : Brain} {input : BrainInput}
    {actions : List Action} (received : Received brain input next actions) :
    Settles (cursorOf next.sm.state) (cursorOf brain.sm.state)
      (actions.flatMap cursorEffects) := by
  cases received with
  | crossing wasLocal isRemote _ =>
      rw [wasLocal, isRemote]
      intro warpOk hideOk
      cases warpOk <;> rfl
  | forwarding _ _ => rfl
  | leaving wasRemote isLocal _ =>
      rw [wasRemote, isLocal]
      intro showOk warpOk
      cases warpOk <;> rfl
  | silent sameState _ =>
      rw [sameState]
      rfl

/-- A step of the console keeps the cursor on its way. -/
theorem settles_console {env : BrainEnv} {session : Session} {next : Console}
    {label : ConsoleLabel} {warpOk : Bool}
    (settles : Settles (cursorOf session.console.brain.sm.state) session.cursor
      (pending session.console))
    (stepped : session.console.step env label = some next) :
    Settles (cursorOf next.brain.sm.state) (session.cursorAfter label warpOk)
      (pending next) := by
  cases label with
  | tapSend | tapReturn | forwardSource | wireMessage =>
      obtain ⟨sameBrain, sameActions, sameEffects⟩ := Console.step_frame rfl stepped
      simpa only [cursorAfter, pending, sameBrain, sameActions, sameEffects] using settles
  | receive nowMs =>
      obtain ⟨noActions, noEffects, input, _, _, rfl⟩ := Console.step_receive stepped
      have settled : session.cursor = cursorOf session.console.brain.sm.state := by
        simpa [pending, noActions, noEffects, Settles] using settles
      have received := session.console.brain.received env input nowMs
      simpa [cursorAfter, pending, noEffects, settled] using settles_received received
  | perform =>
      obtain ⟨noEffects, action, actions, split, rfl⟩ := Console.step_perform stepped
      have before : Settles (cursorOf session.console.brain.sm.state) session.cursor
          (cursorEffects action ++ actions.flatMap cursorEffects) := by
        simpa [pending, noEffects, split] using settles
      exact settles_executeAction.mpr before
  | effect =>
      obtain ⟨effect, effects, split, rfl⟩ := Console.step_effect stepped
      obtain ⟨swallow, applied⟩ :=
        Console.apply_eq { session.console with effects := effects } effect
      simp only [pending, split, List.cons_append] at settles
      simp only [cursorAfter, applied, split]
      exact settles warpOk

theorem mem_remove {session : Session} {task other : Task} :
    other ∈ (session.remove task).alive ↔ other ∈ session.alive ∧ other ≠ task := by
  simp [remove]

/-- A task that goes while it waits leaves the session orderly. -/
theorem orderly_remove {session : Session} (orderly : Orderly session) {task : Task}
    (waiting : session.waiting task = true) : Orderly (session.remove task) where
  settles := orderly.settles
  brainDone gone := by
    by_cases isBrain : task = .brain
    · subst isBrain
      simpa [Session.waiting, remove] using waiting
    · refine orderly.brainDone fun member => gone ?_
      exact mem_remove.mpr ⟨member, Ne.symm isBrain⟩
  tapOwned isInstalled := by
    simp only [remove, Bool.and_eq_true, bne_iff_ne, ne_eq] at isInstalled
    exact mem_remove.mpr ⟨orderly.tapOwned isInstalled.1, Ne.symm isInstalled.2⟩

theorem step_console {env : BrainEnv} {session next : Session} {label : ConsoleLabel}
    {warpOk : Bool} (stepped : session.step env (.console label warpOk) = some next) :
    session.enabled label = true ∧ ∃ console,
      session.console.step env label = some console ∧
        next = { session with
          console := console
          cursor := session.cursorAfter label warpOk } := by
  by_cases enabled : session.enabled label = true
  · cases moved : session.console.step env label with
    | none => simp [step, enabled, moved] at stepped
    | some console =>
        simp only [step, if_pos enabled, moved, Option.some.injEq] at stepped
        exact ⟨enabled, console, rfl, stepped.symm⟩
  · simp [step, enabled] at stepped

theorem orderly_step {env : BrainEnv} {session next : Session} {label : SessionLabel}
    (orderly : Orderly session) (stepped : session.step env label = some next) :
    Orderly next := by
  cases label with
  | console label warpOk =>
      obtain ⟨enabled, console, moved, rfl⟩ := step_console stepped
      refine ⟨settles_console orderly.settles moved, fun gone => ?_, orderly.tapOwned⟩
      have other : Console.ofBrain label = false := by
        cases label <;> simp_all [Session.enabled, Console.ofBrain]
      obtain ⟨_, sameActions, sameEffects⟩ := Console.step_frame other moved
      rw [sameActions, sameEffects]
      exact orderly.brainDone gone
  | exit task =>
      by_cases may : session.mayExit task = true
      · simp only [step, if_pos may, Option.some.injEq] at stepped
        subst stepped
        have waiting : session.waiting task = true := by
          simp only [mayExit, Bool.and_eq_true] at may
          exact may.1.2
        have removed := orderly_remove orderly waiting
        exact ⟨removed.settles, removed.brainDone, removed.tapOwned⟩
      · simp [step, may] at stepped
  | waitForFirstExit =>
      simp only [step, Option.ite_none_right_eq_some, Option.some.injEq] at stepped
      obtain ⟨_, rfl⟩ := stepped
      exact ⟨orderly.settles, orderly.brainDone, orderly.tapOwned⟩
  | drainHeldOnDisconnect =>
      simp only [step, Option.ite_none_right_eq_some, Option.some.injEq] at stepped
      obtain ⟨_, rfl⟩ := stepped
      exact ⟨orderly.settles, orderly.brainDone, orderly.tapOwned⟩
  | abortAll =>
      simp only [step, Option.ite_none_right_eq_some, Option.some.injEq] at stepped
      obtain ⟨_, rfl⟩ := stepped
      exact ⟨orderly.settles, orderly.brainDone, orderly.tapOwned⟩
  | cancel task =>
      simp only [step, Option.ite_none_right_eq_some, Option.some.injEq] at stepped
      obtain ⟨⟨_, _, waiting⟩, rfl⟩ := stepped
      exact orderly_remove orderly waiting
  | handlePeerReturns =>
      simp only [step, Option.ite_none_right_eq_some, Option.some.injEq] at stepped
      obtain ⟨_, rfl⟩ := stepped
      exact ⟨orderly.settles, orderly.brainDone, orderly.tapOwned⟩

/-- `handle_peer` returns only when every task is gone. -/
def AllGone (session : Session) : Prop :=
  session.phase = .returned → session.alive = []

theorem allGone_step {env : BrainEnv} {session next : Session} {label : SessionLabel}
    (allGone : AllGone session) (stepped : session.step env label = some next) :
    AllGone next := by
  intro returned
  cases label with
  | console label warpOk =>
      obtain ⟨_, console, _, rfl⟩ := step_console stepped
      exact allGone returned
  | exit task =>
      simp only [step, Option.ite_none_right_eq_some, Option.some.injEq] at stepped
      obtain ⟨_, rfl⟩ := stepped
      have empty : session.alive = [] := allGone returned
      simp [remove, empty]
  | cancel task =>
      simp only [step, Option.ite_none_right_eq_some, Option.some.injEq] at stepped
      obtain ⟨_, rfl⟩ := stepped
      have empty : session.alive = [] := allGone returned
      simp [remove, empty]
  | handlePeerReturns =>
      simp only [step, Option.ite_none_right_eq_some, Option.some.injEq] at stepped
      obtain ⟨⟨_, empty⟩, rfl⟩ := stepped
      exact empty
  | waitForFirstExit | drainHeldOnDisconnect | abortAll =>
      simp only [step, Option.ite_none_right_eq_some, Option.some.injEq] at stepped
      obtain ⟨_, rfl⟩ := stepped
      cases returned

end Session

/-- When `handle_peer` has returned, the cursor is visible and coupled and no
tap swallows, exactly when the edge machine was in local control as its task
ended. -/
theorem session_given_back_iff (env : BrainEnv) (history : List (KeyTransition UInt16))
    (tapInstalled clipboardInstalled : Bool) (labels : List SessionLabel)
    (final : Session)
    (run : exec (Session.step env)
      (.start env history tapInstalled clipboardInstalled) labels = some final)
    (returned : final.phase = .returned) :
    final.GivenBack ↔ final.console.brain.sm.state = .localActive := by
  have orderly : Session.Orderly final :=
    invariant_of_exec (fun _ _ _ => Session.orderly_step)
      (Session.orderly_start env history tapInstalled clipboardInstalled) run
  have allGone : Session.AllGone final :=
    invariant_of_exec (fun _ _ _ => Session.allGone_step) (by rintro ⟨⟩) run
  have empty : final.alive = [] := allGone returned
  obtain ⟨noActions, noEffects⟩ := orderly.brainDone (by simp [empty])
  have settled : final.cursor = cursorOf final.console.brain.sm.state := by
    simpa [Session.pending, noActions, noEffects, Settles] using orderly.settles
  have noTap : ¬ final.tapInstalled = true := fun isInstalled => by
    have owner := orderly.tapOwned isInstalled
    simp [empty] at owner
  rw [Session.GivenBack, settled]
  cases final.console.brain.sm.state with
  | localActive => simp [cursorOf, noTap]
  | remoteActive => simp [cursorOf, Cursor.hidden, Cursor.shown]

/-- The peer says goodbye: the reader exits, the held keys are drained, the
other tasks are aborted. -/
def teardown : List SessionLabel :=
  [.exit .reader, .waitForFirstExit, .drainHeldOnDisconnect, .abortAll,
    .cancel .encoder, .cancel .heartbeat, .cancel .deadlineWatcher,
    .cancel .sourceForwarder, .cancel .brain, .handlePeerReturns]

def onConsole (labels : List ConsoleLabel) : List SessionLabel :=
  labels.map fun label => .console label true

def Session.outcome (session : Session) : Phase × State × Cursor × Bool :=
  (session.phase, session.console.brain.sm.state, session.cursor, session.tapInstalled)

/-- Control has been to the peer and back when the session ends. -/
theorem session_given_back_iff_after_return :
    ∃ final, exec (Session.step singleDisplay) (.start singleDisplay [] true false)
        (onConsole (cross 100 ++ release 300) ++ teardown) = some final ∧
      final.GivenBack := by
  have run : (exec (Session.step singleDisplay) (.start singleDisplay [] true false)
      (onConsole (cross 100 ++ release 300) ++ teardown)).map Session.outcome =
        some (.returned, .localActive, .shown, false) := by
    decide
  obtain ⟨final, reached, outcome⟩ := Option.map_eq_some_iff.mp run
  simp only [Session.outcome, Prod.mk.injEq] at outcome
  exact ⟨final, reached,
    (session_given_back_iff singleDisplay [] true false _ final reached outcome.1).mpr
      outcome.2.1⟩

/-- The session ends while the peer drives, and the cursor stays hidden and
decoupled. -/
theorem not_givenBack_while_remote :
    ∃ final, exec (Session.step singleDisplay) (.start singleDisplay [] true false)
        (onConsole (cross 100) ++ teardown) = some final ∧
      final.phase = .returned ∧ final.cursor = .hidden ∧ ¬ final.GivenBack := by
  have run : (exec (Session.step singleDisplay) (.start singleDisplay [] true false)
      (onConsole (cross 100) ++ teardown)).map Session.outcome =
        some (.returned, .remoteActive, .hidden, false) := by
    decide
  obtain ⟨final, reached, outcome⟩ := Option.map_eq_some_iff.mp run
  simp only [Session.outcome, Prod.mk.injEq] at outcome
  obtain ⟨returned, _, hidden, _⟩ := outcome
  refine ⟨final, reached, returned, hidden, fun givenBack => ?_⟩
  have shown : final.cursor = .shown := givenBack.1
  rw [hidden] at shown
  cases shown

end Kmwarp.Server
