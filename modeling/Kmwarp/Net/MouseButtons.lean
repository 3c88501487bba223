import Kmwarp.Client.StuckKeys
import Kmwarp.Foundation.Runs
import Kmwarp.Server.Brain

/-!
# Mouse buttons across the handoff

Keys are tracked on both sides and released when control returns or the session ends.
Buttons are tracked nowhere, so a drag that is under way then stays down on the client.
-/

namespace Kmwarp

open Foundation Wire

namespace Wire

/-! ## Button logs -/

/-- The press or release a valid button message stands for. -/
def buttonTransition : Message → Option (KeyTransition MouseButton)
  | .mouseButton button state =>
      match byteToMouseButton button, byteToKeyState state with
      | some btn, some st => some ⟨btn, st.isDown⟩
      | _, _ => none
  | _ => none

def buttonLog (msgs : List Message) : List (KeyTransition MouseButton) :=
  msgs.filterMap buttonTransition

/-- The press or release a call of `inject_mouse_button` performs. -/
def callButtonTransition : SinkCall → Option (KeyTransition MouseButton)
  | .injectMouseButton button state => some ⟨button, state.isDown⟩
  | _ => none

def callButtonLog (sink : List SinkCall) : List (KeyTransition MouseButton) :=
  sink.filterMap callButtonTransition

@[simp] theorem buttonLog_append (first second : List Message) :
    buttonLog (first ++ second) = buttonLog first ++ buttonLog second :=
  List.filterMap_append

@[simp] theorem callButtonLog_append (first second : List SinkCall) :
    callButtonLog (first ++ second) = callButtonLog first ++ callButtonLog second :=
  List.filterMap_append

/-- The button calls of a frame are its button event. -/
theorem callButtonLog_sinkCalls (msg : Message) :
    callButtonLog (Client.sinkCalls msg) = buttonLog [msg] := by
  cases msg
  case mouseButton button state =>
    cases decodedButton : byteToMouseButton button <;>
      cases decodedState : byteToKeyState state <;>
      simp [Client.sinkCalls, applyMouseToSink, applyKeyToSink, callButtonLog, buttonLog,
        callButtonTransition, buttonTransition, decodedButton, decodedState]
  case keyEvent hidUsage state modifiers =>
    cases decoded : byteToKeyState state <;>
      simp only [Client.sinkCalls, applyMouseToSink, applyKeyToSink, decoded] <;>
      rfl
  all_goals rfl

/-- The drop of the guard releases no button. -/
theorem callButtonLog_drop (guard : Client.InjectorGuard) :
    callButtonLog guard.drop.sink = callButtonLog guard.sink := by
  have onlyKeys :
      callButtonLog (guard.held.drain.1.map fun hid => .injectKey hid .up {}) = [] := by
    rw [callButtonLog, List.filterMap_eq_nil_iff]
    intro call member
    obtain ⟨hid, _, rfl⟩ := List.mem_map.mp member
    rfl
  rw [Client.sink_drop, callButtonLog_append, onlyKeys, List.append_nil]

/-- Nor does a drain on the server. -/
theorem buttonLog_drainMessages (held : HeldKeys) :
    buttonLog (Server.drainMessages held) = [] := by
  rw [buttonLog, List.filterMap_eq_nil_iff]
  intro msg member
  obtain ⟨hid, _, rfl⟩ := List.mem_map.mp member
  rfl

end Wire

/-! ## Brain and injector -/

/-- `inFlight` are the frames between the brain and the injector, of which none is
lost. -/
structure ButtonRun where
  brain : Server.Brain
  inFlight : List Message
  client : Client.Session
  ended : Bool

inductive ButtonLabel where
  | brain (input : Server.BrainInput) (nowMs : Nat)
  | dispatch
  | endSession
deriving DecidableEq

namespace ButtonRun

def start (server : Server.BrainEnv) (echoGuard : EchoGuard)
    (statusTx : Option Client.ClientStatus) : ButtonRun where
  brain := .new server
  inFlight := []
  client := ⟨.new echoGuard, .empty, false, statusTx⟩
  ended := false

/-- The session can end at any time; the guard is dropped then. -/
def step (server : Server.BrainEnv) (client : Client.InjectorEnv) (run : ButtonRun)
    (label : ButtonLabel) : Option ButtonRun :=
  if run.ended then none
  else
    match label with
    | .brain input nowMs =>
        let (brain, effects) := run.brain.step server input nowMs
        some { run with
          brain := brain
          inFlight := run.inFlight ++ Server.sends effects }
    | .dispatch =>
        match run.inFlight with
        | [] => none
        | msg :: inFlight =>
            match Client.dispatchOne client msg run.client with
            | .error _ => none
            | .ok session =>
                some { run with
                  inFlight := inFlight
                  client := session }
    | .endSession =>
        some { run with
          client := { run.client with guard := run.client.guard.drop }
          ended := true }

/-- The Mac drives with all frames applied, or the session has ended. -/
def AtRest (run : ButtonRun) : Prop :=
  run.brain.sm.state = .localActive ∧ run.inFlight = [] ∨ run.ended = true

/-- At rest, every press of a button on the client has been followed by its release. -/
def ButtonsReleased (run : ButtonRun) : Prop :=
  run.AtRest → ∀ button before after,
    callButtonLog run.client.guard.sink = before ++ ⟨button, true⟩ :: after →
      ⟨button, false⟩ ∈ after

/-- The button events forwarded so far, applied or in flight. -/
def forwarded (run : ButtonRun) : List (KeyTransition MouseButton) :=
  callButtonLog run.client.guard.sink ++ buttonLog run.inFlight

/-- Control returns, and the session ends, outside a drag. -/
def OutsideDrag (run : ButtonRun) : ButtonLabel → Prop
  | .brain (.wireMessage (.releaseControl _)) _ =>
      run.brain.sm.state = .remoteActive → ∀ button, ¬ Pressed run.forwarded button
  | .endSession => ∀ button, ¬ Pressed (callButtonLog run.client.guard.sink) button
  | _ => True

/-! ## Once the frames have been applied -/

/-- No button is left down on the client after the session, nor, while the Mac drives,
by what has been forwarded. -/
structure NoDrag (run : ButtonRun) : Prop where
  whileLive : run.ended = false → run.brain.sm.state = .localActive →
    ∀ button, ¬ Pressed run.forwarded button
  afterEnd : run.ended = true →
    ∀ button, ¬ Pressed (callButtonLog run.client.guard.sink) button

theorem NoDrag.buttonsReleased {run : ButtonRun} (noDrag : NoDrag run) :
    run.ButtonsReleased := by
  intro atRest button
  refine (not_pressed_iff_every_press_released _ button).mp ?_
  cases ended : run.ended with
  | true => exact noDrag.afterEnd ended button
  | false =>
      rcases atRest with ⟨isLocal, empty⟩ | isEnded
      · have released := noDrag.whileLive ended isLocal button
        simpa [forwarded, empty, buttonLog] using released
      · rw [ended] at isEnded
        cases isEnded

theorem noDrag_start (server : Server.BrainEnv) (echoGuard : EchoGuard)
    (statusTx : Option Client.ClientStatus) : NoDrag (start server echoGuard statusTx) where
  whileLive _ _ button := not_pressed_nil button
  afterEnd := nofun

variable {server : Server.BrainEnv} {client : Client.InjectorEnv} {run next : ButtonRun}

theorem step_brain {input : Server.BrainInput} {nowMs : Nat}
    (stepped : run.step server client (.brain input nowMs) = some next) :
    run.ended = false ∧ next = { run with
      brain := (run.brain.step server input nowMs).1
      inFlight := run.inFlight ++ Server.sends (run.brain.step server input nowMs).2 } := by
  cases ended : run.ended with
  | true => simp [step, ended] at stepped
  | false =>
      simp only [step, ended, Bool.false_eq_true, if_false, Option.some.injEq] at stepped
      exact ⟨rfl, stepped.symm⟩

/-- A dispatch takes the first frame and makes its calls. -/
theorem step_dispatch (stepped : run.step server client .dispatch = some next) :
    run.ended = false ∧ ∃ msg session, run.inFlight = msg :: next.inFlight ∧
      session.guard.sink = run.client.guard.sink ++ Client.sinkCalls msg ∧
      next = { run with inFlight := next.inFlight, client := session } := by
  cases ended : run.ended with
  | true => simp [step, ended] at stepped
  | false =>
      cases inFlight : run.inFlight with
      | nil => simp [step, ended, inFlight] at stepped
      | cons msg later =>
          obtain ⟨session, dispatched, dispatches⟩ :=
            Client.dispatchOne_spec client msg run.client
          simp only [step, ended, Bool.false_eq_true, if_false, inFlight, dispatched,
            Option.some.injEq] at stepped
          subst stepped
          exact ⟨rfl, msg, session, rfl, dispatches.sink, rfl⟩

/-- A dispatch moves a button event from the frames in flight to the sink. -/
theorem forwarded_dispatch (stepped : run.step server client .dispatch = some next) :
    next.ended = run.ended ∧ next.brain = run.brain ∧ next.forwarded = run.forwarded := by
  obtain ⟨_, msg, session, split, calls, same⟩ := step_dispatch stepped
  refine ⟨by rw [same], by rw [same], ?_⟩
  rw [forwarded, forwarded, split, same, calls, callButtonLog_append, callButtonLog_sinkCalls,
    List.append_assoc, ← buttonLog_append, List.singleton_append]

theorem noDrag_dispatch (noDrag : NoDrag run)
    (stepped : run.step server client .dispatch = some next) : NoDrag next := by
  obtain ⟨live, _⟩ := step_dispatch stepped
  obtain ⟨sameEnded, sameBrain, sameLog⟩ := forwarded_dispatch stepped
  constructor
  · rw [sameEnded, sameBrain, sameLog]
    exact noDrag.whileLive
  · intro ended
    rw [sameEnded, live] at ended
    cases ended

/-- A turn that ends in local control forwards no button event. -/
theorem buttonLog_turn {brain after : Server.Brain} {input : Server.BrainInput}
    {effects : List Server.Effect}
    (turn : Server.BrainTurn server brain input after effects)
    (isLocal : after.sm.state = .localActive) : buttonLog (Server.sends effects) = [] := by
  rcases turn.of_local isLocal with ⟨_, _, _, drained⟩ | ⟨_, _, silent⟩
  · rw [drained, buttonLog_drainMessages]
  · rw [silent]
    rfl

theorem outsideDrag_of_notReturning {input : Server.BrainInput} {nowMs : Nat}
    (notReturning : ∀ exitY, input = .wireMessage (.releaseControl exitY) →
      run.brain.sm.state ≠ .remoteActive) : run.OutsideDrag (.brain input nowMs) := by
  cases input with
  | source event => trivial
  | wireMessage msg =>
      cases msg
      case releaseControl exitY =>
        exact fun isRemote => absurd isRemote (notReturning exitY rfl)
      all_goals trivial

/-- Only a turn that leaves the peer can leave a button down there. -/
theorem noDrag_brain_iff {input : Server.BrainInput} {nowMs : Nat} (noDrag : NoDrag run)
    (stepped : run.step server client (.brain input nowMs) = some next) :
    NoDrag next ↔ run.OutsideDrag (.brain input nowMs) := by
  obtain ⟨live, rfl⟩ := step_brain stepped
  have turn := run.brain.turn server input nowMs
  have returns : ∀ exitY, input = .wireMessage (.releaseControl exitY) →
      (run.brain.step server input nowMs).1.sm.state = .localActive := by
    rintro exitY rfl
    exact run.brain.state_step_releaseControl server exitY nowMs
  generalize run.brain.step server input nowMs = result at turn returns
  obtain ⟨brain, effects⟩ := result
  have sameLog : brain.sm.state = .localActive →
      callButtonLog run.client.guard.sink ++
        buttonLog (run.inFlight ++ Server.sends effects) = run.forwarded := by
    intro isLocal
    rw [buttonLog_append, buttonLog_turn turn isLocal, List.append_nil, forwarded]
  constructor
  · intro after
    by_cases isLocal : brain.sm.state = .localActive
    · have released := after.whileLive live isLocal
      rw [forwarded, sameLog isLocal] at released
      rcases turn.of_local isLocal with ⟨⟨exitY, rfl⟩, _⟩ | ⟨wasLocal, _⟩
      · exact fun _ => released
      · refine outsideDrag_of_notReturning fun _ _ wasRemote => ?_
        rw [wasLocal] at wasRemote
        cases wasRemote
    · refine outsideDrag_of_notReturning fun exitY isRelease => ?_
      exact absurd (returns exitY isRelease) isLocal
  · intro outside
    refine ⟨fun _ isLocal => ?_, fun ended => absurd (live.symm.trans ended) nofun⟩
    rw [forwarded, sameLog isLocal]
    rcases turn.of_local isLocal with ⟨⟨exitY, rfl⟩, wasRemote, _⟩ | ⟨wasLocal, _⟩
    · exact outside wasRemote
    · exact noDrag.whileLive live wasLocal

theorem noDrag_endSession_iff (stepped : run.step server client .endSession = some next) :
    NoDrag next ↔ run.OutsideDrag .endSession := by
  cases ended : run.ended with
  | true => simp [step, ended] at stepped
  | false =>
      simp only [step, ended, Bool.false_eq_true, if_false, Option.some.injEq] at stepped
      subst stepped
      have sameLog := callButtonLog_drop run.client.guard
      constructor
      · intro noDrag
        rw [OutsideDrag, ← sameLog]
        exact noDrag.afterEnd rfl
      · intro released
        refine ⟨nofun, fun _ => ?_⟩
        rw [sameLog]
        exact released

theorem noDrag_step_iff {label : ButtonLabel} (noDrag : NoDrag run)
    (stepped : run.step server client label = some next) :
    NoDrag next ↔ run.OutsideDrag label := by
  cases label with
  | brain input nowMs => exact noDrag_brain_iff noDrag stepped
  | dispatch => exact iff_of_true (noDrag_dispatch noDrag stepped) trivial
  | endSession => exact noDrag_endSession_iff stepped

/-- However many of the frames in flight are applied, the buttons have been released
whenever the run is at rest. -/
def SettlesReleased (server : Server.BrainEnv) (client : Client.InjectorEnv)
    (run : ButtonRun) : Prop :=
  ∀ count final, exec (step server client) run (List.replicate count .dispatch) = some final →
    final.ButtonsReleased

/-- All frames in flight can be applied. -/
theorem exec_dispatchAll (server : Server.BrainEnv) (client : Client.InjectorEnv)
    {run : ButtonRun} (live : run.ended = false) :
    ∃ final, exec (step server client) run (List.replicate run.inFlight.length .dispatch) =
        some final ∧
      final.brain = run.brain ∧ final.inFlight = [] ∧ final.forwarded = run.forwarded := by
  generalize inFlight : run.inFlight = frames
  induction frames generalizing run with
  | nil => exact ⟨run, rfl, rfl, inFlight, rfl⟩
  | cons msg later ih =>
      obtain ⟨session, dispatched, _⟩ := Client.dispatchOne_spec client msg run.client
      let next : ButtonRun := { run with inFlight := later, client := session }
      have stepped : run.step server client .dispatch = some next := by
        simp only [step, live, Bool.false_eq_true, if_false, inFlight, dispatched, next]
      obtain ⟨sameEnded, sameBrain, sameLog⟩ := forwarded_dispatch stepped
      obtain ⟨final, applied, brain, empty, log⟩ := ih (sameEnded.trans live) rfl
      refine ⟨final, ?_, brain.trans sameBrain, empty, log.trans sameLog⟩
      exact exec_cons_eq_some.mpr ⟨next, stepped, applied⟩

theorem settlesReleased_iff : run.SettlesReleased server client ↔ NoDrag run := by
  constructor
  · intro settles
    constructor
    · intro live isLocal button
      obtain ⟨final, applied, brain, empty, log⟩ := exec_dispatchAll server client live
      have atRest : final.AtRest := .inl ⟨brain ▸ isLocal, empty⟩
      have released := (not_pressed_iff_every_press_released _ button).mpr
        (settles _ final applied atRest button)
      rw [← log]
      simpa [forwarded, empty, buttonLog] using released
    · intro ended button
      exact (not_pressed_iff_every_press_released _ button).mpr
        (settles 0 run rfl (.inr ended) button)
  · intro noDrag count final applied
    refine NoDrag.buttonsReleased ?_
    induction count generalizing run with
    | zero =>
        cases applied
        exact noDrag
    | succ count ih =>
        obtain ⟨next, stepped, rest⟩ := exec_cons_eq_some.mp applied
        exact ih (noDrag_dispatch noDrag stepped) rest

end ButtonRun

/-- In every run no button is left stuck on the client at rest, once the frames in
flight have been applied, if and only if control never returns and the session never
ends within a drag. -/
theorem buttonsReleased_iff_outsideDrag (server : Server.BrainEnv)
    (client : Client.InjectorEnv) (echoGuard : EchoGuard)
    (statusTx : Option Client.ClientStatus) (labels : List ButtonLabel) :
    (Throughout (ButtonRun.step server client) (ButtonRun.SettlesReleased server client)
          (.start server echoGuard statusTx) labels ↔
        Along (ButtonRun.step server client) ButtonRun.OutsideDrag
          (.start server echoGuard statusTx) labels) ∧
      (Along (ButtonRun.step server client) ButtonRun.OutsideDrag
          (.start server echoGuard statusTx) labels →
        Throughout (ButtonRun.step server client) ButtonRun.ButtonsReleased
          (.start server echoGuard statusTx) labels) := by
  have settles_iff : Throughout (ButtonRun.step server client)
        (ButtonRun.SettlesReleased server client) (.start server echoGuard statusTx) labels ↔
      Along (ButtonRun.step server client) ButtonRun.OutsideDrag
        (.start server echoGuard statusTx) labels := by
    have noDrag : Throughout (ButtonRun.step server client)
          (ButtonRun.SettlesReleased server client) (.start server echoGuard statusTx) labels ↔
        Throughout (ButtonRun.step server client) ButtonRun.NoDrag
          (.start server echoGuard statusTx) labels :=
      ⟨fun settles => settles.mono fun _ => ButtonRun.settlesReleased_iff.mp,
        fun noDrag => noDrag.mono fun _ => ButtonRun.settlesReleased_iff.mpr⟩
    have kept : ∀ run label next, True →
        ButtonRun.step server client run label = some next → True :=
      fun _ _ _ _ _ => trivial
    rw [noDrag]
    exact throughout_iff_along kept (fun _ _ _ _ => ButtonRun.noDrag_step_iff) trivial
      (ButtonRun.noDrag_start server echoGuard statusTx)
  refine ⟨settles_iff, fun along => (settles_iff.mpr along).mono fun run settles => ?_⟩
  exact settles 0 run rfl

def plainInjector : Client.InjectorEnv where
  sha256 := toBytes32
  clipboardAccepts _ _ := true
  peerAddr := "peer"

/-- Control returns between the press and the release of the left button. -/
def returnWithinDrag : List ButtonLabel :=
  [.brain (.source (.cursorAt 1919 300)) 100, .dispatch,
    .brain (.source (.mouseButton .left .down)) 110, .dispatch,
    .brain (.wireMessage (.releaseControl 300)) 200,
    .brain (.source (.mouseButton .left .up)) 210]

/-- The release of the button stays on the Mac. -/
theorem not_buttonsReleased_returnWithinDrag :
    ¬ ∀ labels, Throughout (ButtonRun.step Server.singleDisplay plainInjector)
      ButtonRun.ButtonsReleased (.start Server.singleDisplay {} none) labels := by
  intro always
  have ended : (exec (ButtonRun.step Server.singleDisplay plainInjector)
      (.start Server.singleDisplay {} none) returnWithinDrag).map
        (fun run => (run.brain.sm.state, run.inFlight, run.client.guard.sink)) =
      some (.localActive, [], [.warpCursorAbs 40 300, .injectMouseButton .left .down]) := by
    decide
  obtain ⟨final, reached, outcome⟩ := Option.map_eq_some_iff.mp ended
  simp only [Prod.mk.injEq] at outcome
  obtain ⟨isLocal, empty, sink⟩ := outcome
  have released : final.ButtonsReleased := final_of_throughout (always _) reached
  have absent := released (.inl ⟨isLocal, empty⟩) .left [] [] (by rw [sink]; rfl)
  cases absent

end Kmwarp
