import Kmwarp.Foundation.Mailbox
import Kmwarp.Foundation.Runs
import Kmwarp.Server.Brain
import Kmwarp.Server.Tap

/-!
# Tap and brain

The tap thread, the source forwarder, the reader and the brain task interleave
step by step.  The tap callback reads the swallow flag after it has queued its
translation, and the brain performs every effect of an action on its own.
-/

namespace Kmwarp.Server

open Foundation Wire

def brainChannelBound : Nat := 256

/-- `physical` is what the user's hands have done to the keys and `localOs`
what the local system has been told of it.  `callback` is an event whose
callback has queued its translation and not yet returned. -/
structure Console where
  heldMods : UInt32
  swallow : Bool
  callback : Option (TapEvent × Option (KeyTransition UInt16))
  tapQueue : List SourceEvent
  brainQueue : Mailbox brainChannelBound BrainInput
  brain : Brain
  actions : List Action
  effects : List Effect
  physical : List (KeyTransition UInt16)
  localOs : List (KeyTransition UInt16)

inductive ConsoleLabel where
  | tapSend (event : TapEvent)
  | tapReturn
  | forwardSource
  | wireMessage (msg : Message)
  | receive (nowMs : Nat)
  | perform
  | effect
deriving DecidableEq

namespace Console

/-- Before the session the tap is not there and the local system sees every
key. -/
def start (env : BrainEnv) (history : List (KeyTransition UInt16)) : Console where
  heldMods := 0
  swallow := false
  callback := none
  tapQueue := []
  brainQueue := .empty
  brain := .new env
  actions := []
  effects := []
  physical := history
  localOs := history

/-- Of the effects only the swallow flag is seen by the tap. -/
def apply (console : Console) : Effect → Console
  | .storeSwallow value => { console with swallow := value }
  | _ => console

def step (env : BrainEnv) (console : Console) : ConsoleLabel → Option Console
  | .tapSend event =>
      match console.callback with
      | some _ => none
      | none =>
          let (sent, heldMods) := cbThunkSend event console.heldMods
          let transition := physicalTransition console.physical event
          some { console with
            heldMods := heldMods
            tapQueue := console.tapQueue ++ sent
            physical := console.physical ++ transition.toList
            callback := some (event, transition) }
  | .tapReturn =>
      match console.callback with
      | none => none
      | some (event, transition) =>
          let told :=
            if cbThunkPasses event console.swallow then transition.toList else []
          some { console with
            localOs := console.localOs ++ told
            callback := none }
  | .forwardSource =>
      match console.tapQueue with
      | [] => none
      | event :: queued =>
          some { console with
            tapQueue := queued
            brainQueue := console.brainQueue.offer (.source event) }
  | .wireMessage msg =>
      some { console with
        brainQueue := console.brainQueue.offer (.wireMessage msg) }
  | .receive nowMs =>
      if console.actions = [] ∧ console.effects = [] then
        match console.brainQueue.recv with
        | none => none
        | some (input, brainQueue) =>
            let (brain, actions) := console.brain.receive env input nowMs
            some { console with
              brainQueue := brainQueue
              brain := brain
              actions := actions }
      else none
  | .perform =>
      match console.effects, console.actions with
      | [], action :: actions =>
          let (brain, effects) := console.brain.perform env action
          some { console with brain := brain, actions := actions, effects := effects }
      | _, _ => none
  | .effect =>
      match console.effects with
      | [] => none
      | effect :: effects => some ({ console with effects := effects }.apply effect)

/-! ## What one step does -/

theorem step_tapSend {env : BrainEnv} {console next : Console} {event : TapEvent}
    (stepped : console.step env (.tapSend event) = some next) :
    console.callback = none ∧
      next = { console with
        heldMods := (cbThunkSend event console.heldMods).2
        tapQueue := console.tapQueue ++ (cbThunkSend event console.heldMods).1
        physical := console.physical ++
          (physicalTransition console.physical event).toList
        callback := some (event, physicalTransition console.physical event) } := by
  cases idle : console.callback with
  | some _ => simp [step, idle] at stepped
  | none =>
      simp only [step, idle, Option.some.injEq] at stepped
      exact ⟨rfl, stepped.symm⟩

theorem step_tapReturn {env : BrainEnv} {console next : Console}
    (stepped : console.step env .tapReturn = some next) :
    ∃ event transition, console.callback = some (event, transition) ∧
      next = { console with
        localOs := console.localOs ++
          if cbThunkPasses event console.swallow then transition.toList else []
        callback := none } := by
  cases inCallback : console.callback with
  | none => simp [step, inCallback] at stepped
  | some pending =>
      simp only [step, inCallback, Option.some.injEq] at stepped
      exact ⟨pending.1, pending.2, rfl, stepped.symm⟩

theorem step_forwardSource {env : BrainEnv} {console next : Console}
    (stepped : console.step env .forwardSource = some next) :
    ∃ event queued, console.tapQueue = event :: queued ∧
      next = { console with
        tapQueue := queued
        brainQueue := console.brainQueue.offer (.source event) } := by
  cases queued : console.tapQueue with
  | nil => simp [step, queued] at stepped
  | cons event later =>
      simp only [step, queued, Option.some.injEq] at stepped
      exact ⟨event, later, rfl, stepped.symm⟩

theorem step_receive {env : BrainEnv} {console next : Console} {nowMs : Nat}
    (stepped : console.step env (.receive nowMs) = some next) :
    console.actions = [] ∧ console.effects = [] ∧ ∃ input brainQueue,
      console.brainQueue.recv = some (input, brainQueue) ∧
        next = { console with
          brainQueue := brainQueue
          brain := (console.brain.receive env input nowMs).1
          actions := (console.brain.receive env input nowMs).2 } := by
  by_cases idle : console.actions = [] ∧ console.effects = []
  · cases received : console.brainQueue.recv with
    | none => simp [step, received] at stepped
    | some taken =>
        simp only [step, if_pos idle, received, Option.some.injEq] at stepped
        exact ⟨idle.1, idle.2, _, _, rfl, stepped.symm⟩
  · simp [step, idle] at stepped

theorem step_perform {env : BrainEnv} {console next : Console}
    (stepped : console.step env .perform = some next) :
    console.effects = [] ∧ ∃ action actions, console.actions = action :: actions ∧
      next = { console with
        brain := (console.brain.perform env action).1
        actions := actions
        effects := (console.brain.perform env action).2 } := by
  cases effects : console.effects with
  | cons effect later => simp [step, effects] at stepped
  | nil =>
      cases actions : console.actions with
      | nil => simp [step, effects, actions] at stepped
      | cons action later =>
          simp only [step, effects, actions, Option.some.injEq] at stepped
          exact ⟨rfl, action, later, rfl, stepped.symm⟩

theorem step_effect {env : BrainEnv} {console next : Console}
    (stepped : console.step env .effect = some next) :
    ∃ effect effects, console.effects = effect :: effects ∧
      next = { console with effects := effects }.apply effect := by
  cases effects : console.effects with
  | nil => simp [step, effects] at stepped
  | cons effect later =>
      simp only [step, effects, Option.some.injEq] at stepped
      exact ⟨effect, later, rfl, stepped.symm⟩

/-- An effect changes at most the swallow flag. -/
theorem apply_eq (console : Console) (effect : Effect) :
    ∃ swallow, console.apply effect = { console with swallow := swallow } := by
  cases effect with
  | storeSwallow value => exact ⟨value, rfl⟩
  | enqueue | warpCursorAbs | hideCursor | showCursor | publishStatus =>
      exact ⟨console.swallow, rfl⟩

/-- The steps of the brain task. -/
def ofBrain : ConsoleLabel → Bool
  | .receive _ | .perform | .effect => true
  | _ => false

/-- The other threads touch neither the brain nor what it is performing. -/
theorem step_frame {env : BrainEnv} {console next : Console} {label : ConsoleLabel}
    (other : ofBrain label = false) (stepped : console.step env label = some next) :
    next.brain = console.brain ∧ next.actions = console.actions ∧
      next.effects = console.effects := by
  cases label with
  | receive | perform | effect => cases other
  | tapSend event =>
      obtain ⟨_, rfl⟩ := step_tapSend stepped
      exact ⟨rfl, rfl, rfl⟩
  | tapReturn =>
      obtain ⟨_, _, _, rfl⟩ := step_tapReturn stepped
      exact ⟨rfl, rfl, rfl⟩
  | forwardSource =>
      obtain ⟨_, _, _, rfl⟩ := step_forwardSource stepped
      exact ⟨rfl, rfl, rfl⟩
  | wireMessage msg =>
      cases stepped
      exact ⟨rfl, rfl, rfl⟩

/-! ## Local presses -/

/-- Everything captured has been processed. -/
def Quiet (console : Console) : Prop :=
  console.callback = none ∧ console.tapQueue = [] ∧ console.brainQueue.items = [] ∧
    console.actions = [] ∧ console.effects = []

instance (console : Console) : Decidable console.Quiet :=
  inferInstanceAs (Decidable (_ ∧ _))

/-- Back in local control with no key held, every press the local system has
been told of has been followed by a release. -/
def LocalReleased (console : Console) : Prop :=
  console.Quiet → console.brain.sm.state = .localActive →
    (∀ key, ¬ Pressed console.physical key) →
      ∀ key before after, console.localOs = before ++ ⟨key, true⟩ :: after →
        ⟨key, false⟩ ∈ after

/-- No release is swallowed of a key that the local system has down. -/
def keepsLocalReleases (console : Console) (label : ConsoleLabel) : Bool :=
  match label, console.callback with
  | .tapReturn, some (_, some ⟨key, false⟩) =>
      !console.swallow || !decide (Pressed console.localOs key)
  | _, _ => true

/-! ## What the local system has down -/

/-- A key that the local system has down is down, or its release is still in
the callback. -/
def Covered (console : Console) : Prop :=
  ∀ key, Pressed console.localOs key →
    Pressed console.physical key ∨
      ∃ event, console.callback = some (event, some ⟨key, false⟩)

/-- The event in the callback is the last thing the hands have done. -/
def CallbackFresh (console : Console) : Prop :=
  ∀ event transition, console.callback = some (event, transition) →
    ∃ earlier, console.physical = earlier ++ transition.toList ∧
      physicalTransition earlier event = transition

structure Consistent (console : Console) : Prop where
  covered : console.Covered
  fresh : console.CallbackFresh

theorem consistent_start (env : BrainEnv) (history : List (KeyTransition UInt16)) :
    Consistent (start env history) where
  covered _ pressed := .inl pressed
  fresh _ _ inCallback := by cases inCallback

/-- Steps of the queue and the brain change nothing the keys depend on. -/
theorem consistent_of_same {console next : Console} (consistent : Consistent console)
    (sameCallback : next.callback = console.callback)
    (samePhysical : next.physical = console.physical)
    (sameLocal : next.localOs = console.localOs) : Consistent next := by
  obtain ⟨covered, fresh⟩ := consistent
  constructor
  · simpa only [Covered, sameCallback, samePhysical, sameLocal] using covered
  · simpa only [CallbackFresh, sameCallback, samePhysical] using fresh

theorem consistent_tapSend {console : Console} (consistent : Consistent console)
    (idle : console.callback = none) (event : TapEvent) (heldMods : UInt32)
    (tapQueue : List SourceEvent) :
    Consistent { console with
      heldMods := heldMods
      tapQueue := tapQueue
      physical := console.physical ++
        (physicalTransition console.physical event).toList
      callback := some (event, physicalTransition console.physical event) } where
  covered := by
    intro key pressed
    have before : Pressed console.physical key := by
      rcases consistent.covered key pressed with down | ⟨_, inCallback⟩
      · exact down
      · rw [idle] at inCallback
        cases inCallback
    cases transition : physicalTransition console.physical event with
    | none => exact .inl (by simpa using before)
    | some last =>
        rcases last with ⟨changed, down⟩
        by_cases same : changed = key
        · subst same
          cases down with
          | true => exact .inl (by simp [pressed_concat])
          | false => exact .inr ⟨event, rfl⟩
        · exact .inl (by simpa [pressed_concat, same] using before)
  fresh := by
    intro sent transition inCallback
    cases inCallback
    exact ⟨console.physical, rfl, rfl⟩

theorem consistent_tapReturn {env : BrainEnv} {console next : Console}
    (consistent : Consistent console)
    (keeps : console.keepsLocalReleases .tapReturn = true)
    (stepped : console.step env .tapReturn = some next) : Consistent next := by
  obtain ⟨event, transition, inCallback, rfl⟩ := step_tapReturn stepped
  obtain ⟨earlier, physical, isTransition⟩ := consistent.fresh event transition inCallback
  refine ⟨fun key pressed => .inl ?_, fun _ _ impossible => by cases impossible⟩
  change Pressed console.physical key
  cases transition with
  | none =>
      have same : Pressed console.localOs key := by simpa using pressed
      rcases consistent.covered key same with down | ⟨_, isRelease⟩
      · exact down
      · rw [inCallback] at isRelease
        cases isRelease
  | some last =>
      obtain ⟨changed, down⟩ := last
      rw [physical, Option.toList_some, pressed_concat]
      have fromLocal : Pressed console.localOs key → (down = false → changed ≠ key) →
          if changed = key then down = true else Pressed earlier key := by
        intro told notRelease
        rcases consistent.covered key told with isDown | ⟨_, isRelease⟩
        · rwa [physical, Option.toList_some, pressed_concat] at isDown
        · rw [inCallback] at isRelease
          cases isRelease
          exact absurd rfl (notRelease rfl)
      simp only [cbThunkPasses_of_transition isTransition, Option.toList_some] at pressed
      cases swallow : console.swallow with
      | false =>
          simp only [swallow, Bool.not_false, if_true, pressed_concat] at pressed
          by_cases same : changed = key
          · rwa [if_pos same] at pressed ⊢
          · rw [if_neg same] at pressed
            exact fromLocal pressed fun _ => same
      | true =>
          have told : Pressed console.localOs key := by simpa [swallow] using pressed
          refine fromLocal told fun isUp same => ?_
          subst isUp same
          simp [keepsLocalReleases, inCallback, swallow, told] at keeps

theorem consistent_step {env : BrainEnv} {console next : Console} {label : ConsoleLabel}
    (consistent : Consistent console) (keeps : console.keepsLocalReleases label = true)
    (stepped : console.step env label = some next) : Consistent next := by
  cases label with
  | tapSend event =>
      obtain ⟨idle, rfl⟩ := step_tapSend stepped
      exact consistent_tapSend consistent idle event _ _
  | tapReturn => exact consistent_tapReturn consistent keeps stepped
  | forwardSource =>
      obtain ⟨_, _, _, rfl⟩ := step_forwardSource stepped
      exact consistent_of_same consistent rfl rfl rfl
  | wireMessage msg =>
      cases stepped
      exact consistent_of_same consistent rfl rfl rfl
  | receive nowMs =>
      obtain ⟨_, _, _, _, _, rfl⟩ := step_receive stepped
      exact consistent_of_same consistent rfl rfl rfl
  | perform =>
      obtain ⟨_, _, _, _, rfl⟩ := step_perform stepped
      exact consistent_of_same consistent rfl rfl rfl
  | effect =>
      obtain ⟨effect, effects, _, rfl⟩ := step_effect stepped
      obtain ⟨swallow, applied⟩ := apply_eq { console with effects := effects } effect
      rw [applied]
      exact consistent_of_same consistent rfl rfl rfl

theorem localReleased_of_consistent {console : Console}
    (consistent : Consistent console) : LocalReleased console := by
  rintro ⟨idle, _⟩ _ noneHeld key
  refine (not_pressed_iff_every_press_released console.localOs key).mp fun pressed => ?_
  rcases consistent.covered key pressed with down | ⟨_, inCallback⟩
  · exact noneHeld key down
  · rw [idle] at inCallback
    cases inCallback

end Console

/-- In every run in which no release is swallowed of a key that the local
system has down, every state of local control with all events processed and no
key held has every local press released. -/
theorem local_presses_released (env : BrainEnv)
    (history : List (KeyTransition UInt16)) (labels : List ConsoleLabel)
    (keeps : Along (Console.step env)
      (fun console label => console.keepsLocalReleases label = true)
      (.start env history) labels) :
    Throughout (Console.step env) Console.LocalReleased (.start env history) labels := by
  have preserved : ∀ console label next, Console.Consistent console →
      console.keepsLocalReleases label = true → console.step env label = some next →
      Console.Consistent next := fun _ _ _ => Console.consistent_step
  have throughout :=
    throughout_of_along preserved (Console.consistent_start env history) keeps
  rw [throughout_iff] at throughout ⊢
  intro before after console split run
  exact Console.localReleased_of_consistent (throughout before after console split run)

/-! ## A key across the crossing -/

/-- The steps that process one captured event without actions. -/
def captureIgnored (event : TapEvent) (nowMs : Nat) : List ConsoleLabel :=
  [.tapSend event, .tapReturn, .forwardSource, .receive nowMs]

/-- A motion to the right edge crosses to the peer. -/
def cross (nowMs : Nat) : List ConsoleLabel :=
  [.tapSend { etype := EventType.mouseMoved, location := (1919, 300) }, .tapReturn,
    .forwardSource, .forwardSource, .receive nowMs, .receive nowMs,
    .perform, .effect, .perform, .effect, .perform, .effect, .perform, .effect, .effect]

/-- The peer releases control. -/
def release (nowMs : Nat) : List ConsoleLabel :=
  [.wireMessage (.releaseControl 300), .receive nowMs,
    .perform, .effect, .effect, .perform, .effect, .perform, .effect]

/-- The A key goes down before the crossing and up behind it. -/
def keyAcrossCrossing : List ConsoleLabel :=
  captureIgnored { etype := EventType.keyDown } 50 ++ cross 100 ++
    (captureIgnored { etype := EventType.keyUp } 200 ++ [.perform, .effect]) ++
    release 300

/-- The A key goes down and up behind the crossing. -/
def keyBehindCrossing : List ConsoleLabel :=
  cross 100 ++
    (captureIgnored { etype := EventType.keyDown } 150 ++ [.perform, .effect]) ++
    (captureIgnored { etype := EventType.keyUp } 200 ++ [.perform, .effect]) ++
    release 300

/-- What the end of a run shows of the keys. -/
def Console.outcome (console : Console) :
    Bool × State × List (KeyTransition UInt16) × List (KeyTransition UInt16) :=
  (decide console.Quiet, console.brain.sm.state, console.physical, console.localOs)

/-- The release of the A key is swallowed and the local system keeps it
down. -/
theorem not_localReleased_keyAcrossCrossing :
    ∃ final, exec (Console.step singleDisplay) (.start singleDisplay [])
        keyAcrossCrossing = some final ∧
      final.outcome =
        (true, .localActive, [⟨0, true⟩, ⟨0, false⟩], [⟨0, true⟩]) ∧
      ¬ final.LocalReleased := by
  have run : (exec (Console.step singleDisplay) (.start singleDisplay [])
      keyAcrossCrossing).map Console.outcome =
        some (true, .localActive, [⟨0, true⟩, ⟨0, false⟩], [⟨0, true⟩]) := by
    decide
  obtain ⟨final, reached, outcome⟩ := Option.map_eq_some_iff.mp run
  refine ⟨final, reached, outcome, fun released => ?_⟩
  simp only [Console.outcome, Prod.mk.injEq, decide_eq_true_eq] at outcome
  obtain ⟨quiet, isLocal, physical, localOs⟩ := outcome
  have noneHeld : ∀ key, ¬ Pressed final.physical key := by
    intro key
    rw [physical]
    simp only [Pressed, lastOf, List.foldl_cons, List.foldl_nil]
    split <;> simp
  have absent := released quiet isLocal noneHeld 0 [] [] localOs
  cases absent

/-- With the key down and up behind the crossing nothing is left down. -/
theorem local_presses_released_keyBehindCrossing :
    ∃ final, exec (Console.step singleDisplay) (.start singleDisplay [])
        keyBehindCrossing = some final ∧
      final.outcome = (true, .localActive, [⟨0, true⟩, ⟨0, false⟩], []) ∧
      final.LocalReleased := by
  have run : (exec (Console.step singleDisplay) (.start singleDisplay [])
      keyBehindCrossing).map Console.outcome =
        some (true, .localActive, [⟨0, true⟩, ⟨0, false⟩], []) := by
    decide
  obtain ⟨final, reached, outcome⟩ := Option.map_eq_some_iff.mp run
  have throughout :=
    local_presses_released singleDisplay [] keyBehindCrossing (by decide)
  exact ⟨final, reached, outcome, final_of_throughout throughout reached⟩

end Kmwarp.Server
