import Kmwarp.Server.HeldTracking

/-!
# What the brain forwards

The brain converts a source event inside the state machine and remaps the
message in the executor.  The reference is the one-step remapped conversion of
the events that arrive while the machine is `remoteActive`.  To tell forwarded
messages from the others, a run is logged action by action, each with the
messages its execution enqueues.
-/

namespace Kmwarp.Server

open Foundation Wire

/-- An executed action and the messages it enqueues. -/
structure Performed where
  action : Action
  msgs : List Message

namespace Performed

/-- The action is a `SendMessage`. -/
def isForward (entry : Performed) : Bool :=
  match entry.action with
  | .sendMessage _ => true
  | _ => false

/-- The messages enqueued in a log. -/
def enqueued (log : List Performed) : List Message :=
  log.flatMap msgs

/-- The messages enqueued by `SendMessage` actions. -/
def forwarded (log : List Performed) : List Message :=
  enqueued (log.filter isForward)

@[simp] theorem enqueued_append (first second : List Performed) :
    enqueued (first ++ second) = enqueued first ++ enqueued second :=
  List.flatMap_append

@[simp] theorem forwarded_append (first second : List Performed) :
    forwarded (first ++ second) = forwarded first ++ forwarded second := by
  rw [forwarded, List.filter_append, enqueued_append]
  rfl

end Performed

/-- A control message, or a release synthesized by a drain. -/
def Synthesized (msg : Message) : Prop :=
  (∃ entryY, msg = .takeControl entryY) ∨ ∃ hid, msg = releaseMessage hid

theorem synthesized_of_mem_drain {held : HeldKeys} {msg : Message}
    (member : msg ∈ drainMessages held) : Synthesized msg := by
  obtain ⟨hid, _, rfl⟩ := List.mem_map.mp member
  exact .inr ⟨hid, rfl⟩

namespace Brain

/-- The log of executing a list of actions. -/
def performed (env : BrainEnv) (brain : Brain) : List Action → List Performed
  | [] => []
  | action :: actions =>
      let (next, effects) := brain.perform env action
      ⟨action, sends effects⟩ :: next.performed env actions

/-- The log of one iteration. -/
def stepLog (env : BrainEnv) (brain : Brain) (input : BrainInput) (nowMs : Nat) :
    List Performed :=
  let (brain, actions) := brain.receive env input nowMs
  brain.performed env actions

/-- The log of a run. -/
def runLog (env : BrainEnv) (brain : Brain) : List BrainLabel → List Performed
  | [] => []
  | label :: labels =>
      brain.stepLog env label.input label.nowMs ++
        (brain.step env label.input label.nowMs).1.runLog env labels

/-- The source event of an input that arrives while the machine is
`remoteActive`. -/
def remoteEvent (brain : Brain) (input : BrainInput) : List SourceEvent :=
  match input with
  | .source event => if brain.sm.state = .remoteActive then [event] else []
  | .wireMessage _ => []

/-- The source events that arrive while the machine is `remoteActive`, in
arrival order. -/
def remoteEvents (env : BrainEnv) (brain : Brain) : List BrainLabel → List SourceEvent
  | [] => []
  | label :: labels =>
      brain.remoteEvent label.input ++
        (brain.step env label.input label.nowMs).1.remoteEvents env labels

/-- The log accounts for every message the executor enqueues. -/
theorem enqueued_performed (env : BrainEnv) (brain : Brain) (actions : List Action) :
    Performed.enqueued (brain.performed env actions) =
      sends (brain.performAll env actions).2 := by
  induction actions generalizing brain with
  | nil => rfl
  | cons action actions ih =>
      have later := ih (brain.perform env action).1
      simp only [performed, performAll, sends_append, Performed.enqueued,
        List.flatMap_cons] at later ⊢
      rw [later]

theorem enqueued_stepLog (env : BrainEnv) (brain : Brain) (input : BrainInput)
    (nowMs : Nat) :
    Performed.enqueued (brain.stepLog env input nowMs) =
      sends (brain.step env input nowMs).2 :=
  enqueued_performed env _ _

end Brain

/-! ## The two remap paths -/

/-- Converting and then remapping the message is the one-step remapped
conversion. -/
theorem remapKeyMessage_sourceEventToMessage (event : SourceEvent) (remap : ModRemap) :
    (sourceEventToMessage event).map (fun msg => remapKeyMessage msg remap) =
      sourceEventToMessageRemapped event remap := by
  cases event with
  | key hidUsage state mods =>
      rw [sourceEventToMessage, Option.map_some, remapKeyMessage,
        remap.applyToModmask_fromWire_toWire, sourceEventToMessageRemapped]
  | mouseRel | mouseButton | mouseWheel | cursorAt => rfl

/-! ## One step -/

/-- An event that converts is forwarded while the machine is `remoteActive`. -/
theorem Brain.receive_of_remote (env : BrainEnv) {brain : Brain} {event : SourceEvent}
    {msg : Message} (isRemote : brain.sm.state = .remoteActive)
    (converted : sourceEventToMessage event = some msg) (nowMs : Nat) :
    brain.receive env (.source event) nowMs = (brain, [.sendMessage msg]) := by
  have stepped : brain.sm.onLocalEvent event nowMs = (brain.sm, [.sendMessage msg]) := by
    cases event with
    | cursorAt x y => cases converted
    | mouseRel | mouseButton | mouseWheel | key =>
        simp [StateMachine.onLocalEvent, isRemote, converted]
  rw [receive, brain.smInput_eq_of_converted env converted]
  simp only [stepped]
  rfl

/-- Forwarding changes nothing but the tracker. -/
theorem Brain.step_of_remote (env : BrainEnv) {brain : Brain} {event : SourceEvent}
    {msg : Message} (isRemote : brain.sm.state = .remoteActive)
    (converted : sourceEventToMessage event = some msg) (nowMs : Nat) :
    brain.step env (.source event) nowMs =
      ({ brain with held := brain.held.trackKey (remapKeyMessage msg env.modRemap) },
        [.enqueue (remapKeyMessage msg env.modRemap)]) := by
  rw [step, brain.receive_of_remote env isRemote converted]
  rfl

/-- Where nothing is done, the reference has nothing to forward either. -/
theorem Brain.remapped_eq_none_of_silent (env : BrainEnv) {brain : Brain}
    {input : BrainInput} {nowMs : Nat} (silent : (brain.receive env input nowMs).2 = [])
    {event : SourceEvent} (arrived : event ∈ brain.remoteEvent input) :
    sourceEventToMessageRemapped event env.modRemap = none := by
  rw [← remapKeyMessage_sourceEventToMessage]
  cases converted : sourceEventToMessage event with
  | none => rfl
  | some msg =>
      cases input with
      | wireMessage _ => simp [remoteEvent] at arrived
      | source other =>
          rw [remoteEvent] at arrived
          split at arrived
          · rename_i isRemote
            rw [← List.mem_singleton.mp arrived,
              brain.receive_of_remote env isRemote converted] at silent
            cases silent
          · cases arrived

/-- A step forwards the reference conversion of the event that arrived, and
enqueues nothing else but control messages and drained releases. -/
theorem Brain.forwarded_stepLog (env : BrainEnv) (brain : Brain) (input : BrainInput)
    (nowMs : Nat) :
    Performed.forwarded (brain.stepLog env input nowMs) =
        (brain.remoteEvent input).filterMap
          (fun event => sourceEventToMessageRemapped event env.modRemap) ∧
      ∀ entry ∈ brain.stepLog env input nowMs, entry.isForward = false →
        ∀ msg ∈ entry.msgs, Synthesized msg := by
  have received := brain.received env input nowMs
  have quiet : (brain.receive env input nowMs).2 = [] → ∀ event ∈ brain.remoteEvent input,
      sourceEventToMessageRemapped event env.modRemap = none :=
    fun silent _ arrived => brain.remapped_eq_none_of_silent env silent arrived
  rw [stepLog]
  generalize brain.receive env input nowMs = result at received quiet
  obtain ⟨next, actions⟩ := result
  cases received with
  | @crossing _ cursorX cursorY backX backY entryY wasLocal isRemote sameHeld =>
      simp only [performed, perform, executeAction, sends_cons, sends_append, sends_drain,
        sends_nil, Effect.sent?]
      refine ⟨by simp [Performed.forwarded, Performed.isForward, remoteEvent, wasLocal,
        Performed.enqueued], ?_⟩
      intro entry member _ msg inEntry
      simp only [List.mem_cons, List.not_mem_nil, or_false] at member
      rcases member with rfl | rfl | rfl | rfl
      · exact .inl ⟨entryY, by simpa using inEntry⟩
      · simp at inEntry
      · simp at inEntry
      · exact synthesized_of_mem_drain (by simpa using inEntry)
  | @forwarding event msg converted isRemote =>
      have reference := remapKeyMessage_sourceEventToMessage event env.modRemap
      rw [converted, Option.map_some] at reference
      have wasRemote : next.sm.state = .remoteActive := isRemote
      simp only [performed, perform, executeAction, sends_cons, sends_nil, Effect.sent?]
      refine ⟨?_, ?_⟩
      · simp only [remoteEvent, wasRemote, if_true, List.filterMap_cons, ← reference]
        rfl
      · intro entry member notForward
        simp only [List.mem_singleton] at member
        rw [member] at notForward
        cases notForward
  | leaving wasRemote isLocal sameHeld =>
      simp only [performed, perform, executeAction, sends_cons, sends_append, sends_drain,
        sends_nil, Effect.sent?]
      refine ⟨by simp [Performed.forwarded, Performed.isForward, remoteEvent,
        Performed.enqueued], ?_⟩
      intro entry member _ msg inEntry
      simp only [List.mem_cons, List.not_mem_nil, or_false] at member
      rcases member with rfl | rfl | rfl
      · exact synthesized_of_mem_drain (by simpa using inEntry)
      · simp at inEntry
      · simp at inEntry
  | silent sameState sameHeld =>
      refine ⟨?_, by simp [performed]⟩
      rw [List.filterMap_eq_nil_iff.mpr (quiet rfl)]
      rfl

/-! ## Whole runs -/

theorem Brain.forwarded_runLog (env : BrainEnv) (brain : Brain)
    (labels : List BrainLabel) :
    Performed.forwarded (brain.runLog env labels) =
        (brain.remoteEvents env labels).filterMap
          (fun event => sourceEventToMessageRemapped event env.modRemap) ∧
      ∀ entry ∈ brain.runLog env labels, entry.isForward = false →
        ∀ msg ∈ entry.msgs, Synthesized msg := by
  induction labels generalizing brain with
  | nil =>
      constructor
      · rfl
      · simp [runLog]
  | cons label labels ih =>
      obtain ⟨here, others⟩ := brain.forwarded_stepLog env label.input label.nowMs
      obtain ⟨later, laterOthers⟩ := ih (brain.step env label.input label.nowMs).1
      constructor
      · rw [runLog, Performed.forwarded_append, here, later, remoteEvents,
          List.filterMap_append]
      · intro entry member
        rcases List.mem_append.mp member with inStep | inRest
        · exact others entry inStep
        · exact laterOthers entry inRest

/-- Without drops the channel takes exactly what the log enqueues. -/
theorem accepted_eq_enqueued {env : BrainEnv} {start final : BrainRun}
    {labels : List BrainLabel}
    (run : exec (BrainRun.step env) start labels = some final)
    (noDrop : ∀ label ∈ labels, ∀ outcome ∈ label.outcomes, outcome = true) :
    accepted final.offered =
      accepted start.offered ++ Performed.enqueued (start.brain.runLog env labels) := by
  induction labels generalizing start with
  | nil =>
      cases run
      simp [Brain.runLog, Performed.enqueued]
  | cons label labels ih =>
      obtain ⟨next, stepped, rest⟩ := exec_cons_eq_some.mp run
      obtain ⟨here, later⟩ := List.forall_mem_cons.mp noDrop
      obtain ⟨sameLength, rfl⟩ := BrainRun.step_eq_some.mp stepped
      rw [ih rest later, accepted_append, offers, accepted_zip_of_all sameLength here,
        Brain.runLog, Performed.enqueued_append, Brain.enqueued_stepLog,
        List.append_assoc]

/-- The brain forwards exactly what the reference says.  In every run without
dropped sends the channel takes the messages of the log; those enqueued by
`SendMessage` are the remapped conversions of the source events that arrived
while the machine was `remoteActive`, in arrival order; the others are control
messages and drained releases; and the two remap paths agree on every event. -/
theorem forwards_exactly_the_reference (env : BrainEnv) (labels : List BrainLabel)
    (final : BrainRun)
    (run : exec (BrainRun.step env) (.start env) labels = some final)
    (noDrop : ∀ label ∈ labels, ∀ outcome ∈ label.outcomes, outcome = true) :
    accepted final.offered = Performed.enqueued ((Brain.new env).runLog env labels) ∧
      Performed.forwarded ((Brain.new env).runLog env labels) =
        ((Brain.new env).remoteEvents env labels).filterMap
          (fun event => sourceEventToMessageRemapped event env.modRemap) ∧
      (∀ entry ∈ (Brain.new env).runLog env labels, entry.isForward = false →
        ∀ msg ∈ entry.msgs, Synthesized msg) ∧
      ∀ event, (sourceEventToMessage event).map
          (fun msg => remapKeyMessage msg env.modRemap) =
        sourceEventToMessageRemapped event env.modRemap := by
  obtain ⟨forwarded, others⟩ := (Brain.new env).forwarded_runLog env labels
  refine ⟨accepted_eq_enqueued run noDrop, forwarded, others, ?_⟩
  intro event
  exact remapKeyMessage_sourceEventToMessage event env.modRemap

/-- The Cmd press before the crossing stays on the Mac; the one after it and
the motion are forwarded, and Cmd is released by the drain. -/
theorem forwards_exactly_the_reference_crossing :
    ∃ final labels, exec (BrainRun.step singleDisplay) (.start singleDisplay) labels =
        some final ∧
      (Brain.new singleDisplay).remoteEvents singleDisplay labels =
        [.key Usage.leftGui .down ModMask.metaKey, .mouseRel (-3) 4] ∧
      Performed.forwarded ((Brain.new singleDisplay).runLog singleDisplay labels) =
        [.keyEvent Usage.leftCtrl KeyStateCode.down 2, .mouseMoveRel (-3) 4] ∧
      accepted final.offered =
        [.takeControl 300, .keyEvent Usage.leftCtrl KeyStateCode.down 2,
          .mouseMoveRel (-3) 4, .keyEvent Usage.leftCtrl KeyStateCode.up 0] := by
  let labels : List BrainLabel :=
    [⟨.source (.key Usage.leftGui .down ModMask.metaKey), 50, []⟩,
      ⟨.source (.cursorAt 1919 300), 100, [true]⟩,
      ⟨.source (.key Usage.leftGui .down ModMask.metaKey), 110, [true]⟩,
      ⟨.source (.mouseRel (-3) 4), 120, [true]⟩,
      ⟨.wireMessage (.releaseControl 300), 200, [true]⟩]
  obtain ⟨_, reference, _⟩ :=
    forwards_exactly_the_reference singleDisplay labels _ rfl (by simp [labels])
  refine ⟨_, labels, rfl, by decide, ?_, by decide⟩
  rw [reference]
  decide

end Kmwarp.Server
