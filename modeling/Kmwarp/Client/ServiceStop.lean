import Kmwarp.Client.ServiceHandles

/-!
# Stopping the service

Which stops reach the helper, and what becomes of it.
-/

namespace Kmwarp.Client

open Foundation

namespace Service

/-- Some handler exchanged the slot after the handle was stored and before the service thread
took it back. -/
def TakenByStop (labels : List ServiceStep) : Prop :=
  Somewhere (fun before label => (∃ handler, label = .takeHandle handler) ∧
    .storeHandle ∈ before ∧ .takeLeftover ∉ before) labels

/-- How the slot and the calls of `TerminateProcess` follow from the steps so far. -/
structure Chronicle (labels : List ServiceStep) (service : Service) : Prop where
  stored : .storeHandle ∈ labels ↔
    service.line.duringWait = true ∨ service.line.pastLeftover = true
  leftover : .takeLeftover ∈ labels ↔ service.line.pastLeftover = true
  slot : service.slot = .handle ↔ service.line.duringWait = true ∧ ¬ TakenByStop labels
  taken : TakenByStop labels →
    service.terminateCalls + service.handlers.count .terminate = 1
  untaken : ¬ TakenByStop labels →
    service.terminateCalls + service.handlers.count .terminate = 0

theorem chronicle_start : Chronicle [] start where
  stored := by simp [start, ServiceLine.duringWait, ServiceLine.pastLeftover]
  leftover := by simp [start, ServiceLine.pastLeftover]
  slot := by simp [start, ServiceLine.duringWait]
  taken somewhere := absurd somewhere not_somewhere_nil
  untaken _ := rfl

variable {service next : Service} {labels : List ServiceStep} {label : ServiceStep}

theorem takenByStop_append_one :
    TakenByStop (labels ++ [label]) ↔ TakenByStop labels ∨
      (∃ handler, label = .takeHandle handler) ∧ .storeHandle ∈ labels ∧
        .takeLeftover ∉ labels :=
  somewhere_append_one

/-- No line is both during the wait and after it. -/
theorem not_pastLeftover {line : ServiceLine} (during : line.duringWait = true) :
    line.pastLeftover = false := by
  cases line <;> first | rfl | cases during

/-- A step that is neither the store nor an exchange of the slot nor a termination. -/
theorem Chronicle.quiet (chronicle : Chronicle labels service)
    (notStore : label ≠ .storeHandle) (notLeftover : label ≠ .takeLeftover)
    (notTake : ∀ handler, label ≠ .takeHandle handler)
    (during : next.line.duringWait = service.line.duringWait)
    (past : next.line.pastLeftover = service.line.pastLeftover)
    (slot : next.slot = .handle ↔ service.slot = .handle)
    (calls : next.terminateCalls = service.terminateCalls)
    (handlers : next.handlers.count .terminate = service.handlers.count .terminate) :
    Chronicle (labels ++ [label]) next := by
  have same : TakenByStop (labels ++ [label]) ↔ TakenByStop labels := by
    rw [takenByStop_append_one]
    constructor
    · rintro (before | ⟨⟨handler, isTake⟩, _⟩)
      · exact before
      · exact absurd isTake (notTake handler)
    · exact .inl
  refine ⟨?_, ?_, ?_, ?_, ?_⟩
  · rw [List.mem_append, during, past, ← chronicle.stored]
    simp [notStore.symm]
  · rw [List.mem_append, past, ← chronicle.leftover]
    simp [notLeftover.symm]
  · rw [slot, during, same]
    exact chronicle.slot
  · rw [same, calls, handlers]
    exact chronicle.taken
  · rw [same, calls, handlers]
    exact chronicle.untaken

theorem Chronicle.storeHandle (chronicle : Chronicle labels service)
    (line : service.line = .storeHandle) :
    Chronicle (labels ++ [.storeHandle])
      { service.moveTo .wait with slot := .handle } := by
  have notStored : .storeHandle ∉ labels := by
    rw [chronicle.stored, line]
    simp [ServiceLine.duringWait, ServiceLine.pastLeftover]
  have untaken : ¬ TakenByStop (labels ++ [.storeHandle]) := by
    rw [takenByStop_append_one]
    rintro (⟨before, item, after, rfl, _, stored, _⟩ | ⟨⟨handler, isTake⟩, _⟩)
    · exact notStored (List.mem_append_left _ stored)
    · cases isTake
  refine ⟨?_, ?_, ?_, fun taken => absurd taken untaken, fun _ => ?_⟩
  · simp [moveTo, ServiceLine.duringWait]
  · have notTaken := chronicle.leftover
    rw [line] at notTaken
    simpa [moveTo, ServiceLine.pastLeftover] using notTaken
  · simp [moveTo, ServiceLine.duringWait, untaken]
  · refine chronicle.untaken fun before => untaken ?_
    exact takenByStop_append_one.mpr (.inl before)

theorem Chronicle.takeLeftover (chronicle : Chronicle labels service)
    (line : service.line = .takeLeftover) :
    Chronicle (labels ++ [.takeLeftover])
      { service.moveTo (if service.slot = .handle then .closeLeftover else .closeThread) with
        slot := .zero } := by
  have stored : .storeHandle ∈ labels := by
    rw [chronicle.stored, line]
    exact .inl rfl
  have same : TakenByStop (labels ++ [.takeLeftover]) ↔ TakenByStop labels := by
    simp [takenByStop_append_one]
  have past : ((service.moveTo
      (if service.slot = .handle then .closeLeftover else .closeThread)).line).pastLeftover =
        true := by
    cases slot : service.slot <;> rfl
  have notDuring : ((service.moveTo
      (if service.slot = .handle then .closeLeftover else .closeThread)).line).duringWait =
        false := by
    cases slot : service.slot <;> rfl
  refine ⟨?_, ?_, ?_, ?_, ?_⟩
  · simp [stored, past]
  · simp [past]
  · simp [notDuring]
  · rw [same]
    exact chronicle.taken
  · rw [same]
    exact chronicle.untaken

/-- A handler that goes on, as the count of handlers about to terminate sees it. -/
theorem count_setHandler {handler : Nat} {before : HandlerLine}
    (found : service.handlers[handler]? = some before) (after : HandlerLine) :
    (service.setHandler handler after).handlers.count .terminate +
        (if before = .terminate then 1 else 0) =
      service.handlers.count .terminate + if after = .terminate then 1 else 0 := by
  obtain ⟨inside, here⟩ := List.getElem?_eq_some_iff.mp found
  have atLeast : (if before = HandlerLine.terminate then 1 else 0) ≤
      service.handlers.count .terminate := by
    split
    · rename_i isTerminate
      exact List.count_pos_iff.mpr (isTerminate ▸ List.mem_of_getElem? found)
    · exact Nat.zero_le _
  rw [setHandler, List.count_set inside, here]
  simp only [beq_iff_eq]
  omega

theorem count_setHandler_of_ne {handler : Nat} {before after : HandlerLine}
    (found : service.handlers[handler]? = some before) (notBefore : before ≠ .terminate)
    (notAfter : after ≠ .terminate) :
    (service.setHandler handler after).handlers.count .terminate =
      service.handlers.count .terminate := by
  have counted := count_setHandler found after
  rwa [if_neg notBefore, if_neg notAfter] at counted

theorem Chronicle.takeHandle {handler : Nat} (chronicle : Chronicle labels service)
    (found : service.handlers[handler]? = some .takeHandle) :
    Chronicle (labels ++ [.takeHandle handler])
      { service.setHandler handler (if service.slot = .handle then .terminate else .returned) with
        slot := .zero } := by
  have now : TakenByStop (labels ++ [.takeHandle handler]) ↔
      TakenByStop labels ∨ service.slot = .handle := by
    rw [takenByStop_append_one, chronicle.stored, chronicle.leftover, chronicle.slot]
    constructor
    · rintro (before | ⟨_, during | past, notPast⟩)
      · exact .inl before
      · by_cases before : TakenByStop labels
        · exact .inl before
        · exact .inr ⟨during, before⟩
      · exact absurd past notPast
    · rintro (before | ⟨during, _⟩)
      · exact .inl before
      · exact .inr ⟨⟨handler, rfl⟩, .inl during, by simp [not_pastLeftover during]⟩
  have counted := count_setHandler found
    (if service.slot = .handle then .terminate else .returned)
  refine ⟨?_, ?_, ?_, ?_, ?_⟩
  · simpa using chronicle.stored
  · simpa using chronicle.leftover
  · -- the slot is empty now: during the wait, it was taken by this handler or before
    simp only [setHandler_line, reduceCtorEq, false_iff, not_and, not_not]
    intro during
    by_cases before : TakenByStop labels
    · exact now.mpr (.inl before)
    · exact now.mpr (.inr (chronicle.slot.mpr ⟨during, before⟩))
  · intro taken
    rcases now.mp taken with before | holds
    · have empty : service.slot ≠ .handle := fun holds => (chronicle.slot.mp holds).2 before
      have calls := chronicle.taken before
      simp only [empty, if_false, reduceCtorEq, setHandler_terminateCalls] at counted ⊢
      omega
    · have calls := chronicle.untaken (chronicle.slot.mp holds).2
      simp only [holds, if_true, if_false, reduceCtorEq, setHandler_terminateCalls] at counted ⊢
      omega
  · intro untaken
    have empty : service.slot ≠ .handle := fun holds => untaken (now.mpr (.inr holds))
    have calls := chronicle.untaken fun before => untaken (now.mpr (.inl before))
    simp only [empty, if_false, reduceCtorEq, setHandler_terminateCalls] at counted ⊢
    omega

theorem Chronicle.terminate {handler : Nat} {reply : Reply} {helper : HelperState}
    (chronicle : Chronicle labels service)
    (found : service.handlers[handler]? = some .terminate) :
    Chronicle (labels ++ [.terminate handler reply])
      { service.setHandler handler .closeHandle with
        terminateCalls := service.terminateCalls + 1, helper } := by
  have same : TakenByStop (labels ++ [.terminate handler reply]) ↔ TakenByStop labels := by
    simp [takenByStop_append_one]
  have counted := count_setHandler found .closeHandle
  simp only [if_true, if_false, reduceCtorEq] at counted
  refine ⟨?_, ?_, ?_, ?_, ?_⟩
  · simpa using chronicle.stored
  · simpa using chronicle.leftover
  · rw [same]
    exact chronicle.slot
  · intro taken
    have calls := chronicle.taken (same.mp taken)
    simp only
    omega
  · intro untaken
    have calls := chronicle.untaken fun before => untaken (same.mpr before)
    simp only
    omega

theorem Chronicle.serves (chronicle : Chronicle labels service) (serves : Serves service next)
    (notStore : label ≠ .storeHandle) (notLeftover : label ≠ .takeLeftover)
    (notTake : ∀ handler, label ≠ .takeHandle handler) :
    Chronicle (labels ++ [label]) next := by
  apply chronicle.quiet notStore notLeftover notTake
  · exact serves.duringWait
  · exact serves.pastLeftover
  · exact serves.slot
  · exact serves.calls
  · rw [serves.handlers]

theorem chronicle_step (chronicle : Chronicle labels service)
    (taken : service.step label = some next) : Chronicle (labels ++ [label]) next := by
  cases label with
  | createProcess reply =>
      obtain ⟨line, rfl⟩ := atLine_eq_some.mp taken
      cases reply with
      | ok =>
          exact chronicle.quiet nofun nofun nofun (by rw [line]; rfl) (by rw [line]; rfl)
            .rfl rfl rfl
      | error code => exact chronicle.serves (serves_of_step taken rfl) nofun nofun nofun
  | storeHandle =>
      obtain ⟨line, rfl⟩ := atLine_eq_some.mp taken
      exact chronicle.storeHandle line
  | waitReturns =>
      obtain ⟨_, line, rfl⟩ := waitReturns_eq_some.mp taken
      exact chronicle.quiet nofun nofun nofun (by rw [line]; rfl) (by rw [line]; rfl)
        .rfl rfl rfl
  | takeLeftover =>
      obtain ⟨line, rfl⟩ := atLine_eq_some.mp taken
      exact chronicle.takeLeftover line
  | closeLeftover =>
      obtain ⟨line, rfl⟩ := atLine_eq_some.mp taken
      exact chronicle.quiet nofun nofun nofun (by rw [line]; rfl) (by rw [line]; rfl)
        .rfl rfl rfl
  | helperExits =>
      obtain ⟨_, rfl⟩ := helperExits_eq_some.mp taken
      exact chronicle.quiet nofun nofun nofun rfl rfl .rfl rfl rfl
  | deliver control =>
      rcases deliver_eq_some taken with rfl | rfl
      · exact chronicle.quiet nofun nofun nofun rfl rfl .rfl rfl rfl
      · exact chronicle.quiet nofun nofun nofun rfl rfl .rfl rfl (by simp)
  | readSlot handler =>
      obtain ⟨found, rfl⟩ := atHandler_eq_some.mp taken
      exact chronicle.quiet nofun nofun nofun rfl rfl .rfl rfl
        (count_setHandler_of_ne found nofun (by split <;> nofun))
  | takeHandle handler =>
      obtain ⟨found, rfl⟩ := atHandler_eq_some.mp taken
      exact chronicle.takeHandle found
  | terminate handler reply =>
      obtain ⟨found, rfl⟩ := atHandler_eq_some.mp taken
      exact chronicle.terminate found
  | closeHandle handler =>
      obtain ⟨found, rfl⟩ := atHandler_eq_some.mp taken
      exact chronicle.quiet nofun nofun nofun rfl rfl .rfl rfl
        (count_setHandler_of_ne found nofun nofun)
  | _ => exact chronicle.serves (serves_of_step taken rfl) nofun nofun nofun

/-- `TerminateProcess` is called at most once, and at the end it has been called if and only
if a handler reached the slot between the store and the end of the wait: a stop before that
is lost. -/
theorem helper_terminated_iff {labels : List ServiceStep}
    (run : exec step start labels = some service) :
    service.terminateCalls ≤ 1 ∧
      ∀ spawned result, service.Settled spawned result →
        (service.terminateCalls = 1 ↔ TakenByStop labels) := by
  have kept : ∀ done service label next, exec step start done = some service →
      Chronicle done service → step service label = some next →
        Chronicle (done ++ [label]) next :=
    fun _ _ _ _ _ chronicle taken => chronicle_step chronicle taken
  have chronicle : Chronicle labels service := history_of_exec kept chronicle_start run
  by_cases taken : TakenByStop labels
  · have calls := chronicle.taken taken
    refine ⟨by omega, fun spawned result settled => ⟨fun _ => taken, fun _ => ?_⟩⟩
    have none : service.handlers.count .terminate = 0 := by
      apply List.count_eq_zero.mpr
      intro member
      cases settled.2 _ member
    omega
  · have calls := chronicle.untaken taken
    refine ⟨by omega, fun spawned result settled => ⟨fun called => ?_, fun is => ?_⟩⟩
    · omega
    · exact absurd is taken

theorem helper_terminated_iff_stoppedTwice :
    ∃ service, exec step start stoppedTwice = some service ∧ service.terminateCalls = 1 ∧
      TakenByStop stoppedTwice := by
  have run : (exec step start stoppedTwice).isSome = true := by decide
  obtain ⟨service, run⟩ := Option.isSome_iff_exists.mp run
  have calls : (exec step start stoppedTwice).map terminateCalls = some 1 := by decide
  have settled : ((exec step start stoppedTwice).map fun service =>
      decide (service.Settled (some (.ok ())) (.ok ()))) = some true := by decide
  rw [run] at calls settled
  have called : service.terminateCalls = 1 := Option.some.inj calls
  have done := of_decide_eq_true (Option.some.inj settled)
  exact ⟨service, run, called, ((helper_terminated_iff run).2 _ _ done).mp called⟩

/-! ## The helper at the end -/

/-- Some `TerminateProcess` failed. -/
def TerminateFailed (labels : List ServiceStep) : Prop :=
  ∃ handler code, .terminate handler (.error code) ∈ labels

/-- What the service thread and the handlers know of the helper. -/
structure Attended (labels : List ServiceStep) (service : Service) : Prop where
  launched : service.helper = .notLaunched ↔ service.line.withoutHelper = true
  stopped : .process ∈ service.ledger.released ∨ .closeHandle ∈ service.handlers ∨
    service.line.pastWait = true → service.helper ≠ .running ∨ TerminateFailed labels

theorem TerminateFailed.append_one (failed : TerminateFailed labels) :
    TerminateFailed (labels ++ [label]) := by
  obtain ⟨handler, code, member⟩ := failed
  exact ⟨handler, code, List.mem_append_left _ member⟩

theorem attended_start : Attended [] start where
  launched := by decide
  stopped _ := .inl nofun

/-- A step after which the helper runs only if it did before. -/
theorem Attended.quiet (attended : Attended labels service)
    (helper : next.helper = service.helper)
    (withoutHelper : next.line.withoutHelper = service.line.withoutHelper)
    (known : .process ∈ next.ledger.released ∨ .closeHandle ∈ next.handlers ∨
        next.line.pastWait = true →
      .process ∈ service.ledger.released ∨ .closeHandle ∈ service.handlers ∨
        service.line.pastWait = true) :
    Attended (labels ++ [label]) next where
  launched := by
    rw [helper, withoutHelper]
    exact attended.launched
  stopped now := by
    rw [helper]
    exact (attended.stopped (known now)).imp_right TerminateFailed.append_one

/-- A handler that goes on to anything but the close. -/
theorem Attended.handler {handler : Nat} {line : HandlerLine} {slot : HandleSlot}
    (attended : Attended labels service) (notClose : line ≠ .closeHandle) :
    Attended (labels ++ [label]) { service.setHandler handler line with slot } := by
  refine attended.quiet rfl rfl ?_
  rintro (released | closing | past)
  · exact .inl released
  · rcases List.mem_or_eq_of_mem_set closing with before | isLine
    · exact .inr (.inl before)
    · exact absurd isLine.symm notClose
  · exact .inr (.inr past)

theorem Attended.serves (attended : Attended labels service) (serves : Serves service next) :
    Attended (labels ++ [label]) next := by
  apply attended.quiet serves.helper serves.withoutHelper
  rw [serves.released, serves.handlers, serves.pastWait]
  exact id

/-- Before the launch nobody has a handle of the process. -/
theorem Attended.createProcess (sound : service.Sound) (line : service.line = .createProcess) :
    Attended (labels ++ [label])
      { ((service.acquire .process).acquire .thread).moveTo (.destroyEnvironment (.ok ())) with
        helper := .running } where
  launched := by simp [moveTo, ServiceLine.withoutHelper]
  stopped := by
    have fresh : .process ∉ service.ledger.acquired := by
      apply sound.fresh
      rw [line]
      simp [ServiceLine.toOpen]
    rintro (released | closing | past)
    · exact absurd (sound.accounted.acquired_of_released released) fresh
    · have held : .process ∈ service.held := by
        refine List.mem_append_right _ (List.mem_append_right _ ?_)
        exact List.mem_flatMap.mpr ⟨_, closing, by simp [HandlerLine.held]⟩
      exact absurd (sound.accounted.open_iff.mpr held).1 fresh
    · cases past

theorem Attended.terminate {handler : Nat} {reply : Reply} (attended : Attended labels service) :
    Attended (labels ++ [.terminate handler reply])
      { service.setHandler handler .closeHandle with
        terminateCalls := service.terminateCalls + 1
        helper := if reply = .ok () ∧ service.helper = .running then .terminating
          else service.helper } := by
  by_cases condemned : reply = .ok () ∧ service.helper = .running
  · simp only [condemned, and_self, if_true]
    refine ⟨?_, fun _ => .inl nofun⟩
    rw [setHandler_line, ← attended.launched, condemned.2]
    simp
  · simp only [condemned, if_false]
    refine ⟨attended.launched, fun _ => ?_⟩
    cases reply with
    | ok => exact .inl fun running => condemned ⟨rfl, running⟩
    | error code => exact .inr ⟨handler, code, by simp⟩

theorem attended_step (sound : service.Sound) (attended : Attended labels service)
    (taken : service.step label = some next) : Attended (labels ++ [label]) next := by
  cases label with
  | createProcess reply =>
      cases reply with
      | ok =>
          obtain ⟨line, rfl⟩ := atLine_eq_some.mp taken
          exact .createProcess sound line
      | error code => exact attended.serves (serves_of_step taken rfl)
  | storeHandle =>
      obtain ⟨line, rfl⟩ := atLine_eq_some.mp taken
      refine attended.quiet rfl (by rw [line]; rfl) ?_
      rw [line]
      exact id
  | waitReturns =>
      obtain ⟨ends, line, rfl⟩ := waitReturns_eq_some.mp taken
      have ended : service.helper ≠ .running ∨ TerminateFailed labels := by
        rcases ends with ended | closed
        · exact .inl (by simp [ended])
        · exact attended.stopped (.inl closed)
      refine ⟨?_, fun _ => ended.imp_right TerminateFailed.append_one⟩
      have launched := attended.launched
      rwa [line] at launched
  | takeLeftover =>
      obtain ⟨line, rfl⟩ := atLine_eq_some.mp taken
      have launched := attended.launched
      have ended := attended.stopped (.inr (.inr (by rw [line]; rfl)))
      rw [line] at launched
      refine ⟨?_, fun _ => ended.imp_right TerminateFailed.append_one⟩
      cases slot : service.slot <;> simpa [slot, moveTo, ServiceLine.withoutHelper] using launched
  | closeLeftover =>
      obtain ⟨line, rfl⟩ := atLine_eq_some.mp taken
      have launched := attended.launched
      have ended := attended.stopped (.inr (.inr (by rw [line]; rfl)))
      rw [line] at launched
      exact ⟨launched, fun _ => ended.imp_right TerminateFailed.append_one⟩
  | helperExits =>
      obtain ⟨alive, rfl⟩ := helperExits_eq_some.mp taken
      refine ⟨?_, fun _ => .inl (by simp)⟩
      rw [← attended.launched]
      rcases alive with running | terminating
      · simp [running]
      · simp [terminating]
  | deliver control =>
      rcases deliver_eq_some taken with rfl | rfl
      · exact attended.quiet rfl rfl id
      · exact attended.quiet rfl rfl (by simp)
  | readSlot handler =>
      obtain ⟨_, rfl⟩ := atHandler_eq_some.mp taken
      exact attended.handler (by split <;> simp)
  | takeHandle handler =>
      obtain ⟨_, rfl⟩ := atHandler_eq_some.mp taken
      exact attended.handler (by split <;> simp)
  | terminate handler reply =>
      obtain ⟨_, rfl⟩ := atHandler_eq_some.mp taken
      exact attended.terminate
  | closeHandle handler =>
      obtain ⟨found, rfl⟩ := atHandler_eq_some.mp taken
      have ended := attended.stopped (.inr (.inl (List.mem_of_getElem? found)))
      exact ⟨attended.launched, fun _ => ended.imp_right TerminateFailed.append_one⟩
  | _ => exact attended.serves (serves_of_step taken rfl)

/-- The service does not report that it is stopped while its helper is left running, unless
`TerminateProcess` has failed. -/
theorem no_helper_left_running {labels : List ServiceStep} {spawned : Except ServiceError Unit}
    (run : exec step start labels = some service)
    (reporting : service.line = .reportStopped spawned)
    (succeeded : ∀ handler code, .terminate handler (.error code) ∉ labels) :
    service.helper = .notLaunched ∨ service.helper = .terminating ∨
      service.helper = .ended := by
  have kept : ∀ done service label next, exec step start done = some service →
      Sound service ∧ Attended done service → step service label = some next →
        Sound next ∧ Attended (done ++ [label]) next :=
    fun _ _ _ _ _ known taken =>
      ⟨sound_step known.1 taken, attended_step known.1 known.2 taken⟩
  have attended : Attended labels service :=
    (history_of_exec kept ⟨sound_start, attended_start⟩ run).2
  have launched := attended.launched
  rw [reporting] at launched
  cases spawned with
  | error error => exact .inl (launched.mpr rfl)
  | ok =>
      have ended := attended.stopped (.inr (.inr (by rw [reporting]; rfl)))
      rcases ended with notRunning | ⟨handler, code, failed⟩
      · cases helper : service.helper with
        | running => exact absurd helper notRunning
        | notLaunched => exact .inl rfl
        | terminating => exact .inr (.inl rfl)
        | ended => exact .inr (.inr rfl)
      · exact absurd failed (succeeded handler code)

theorem no_helper_left_running_stoppedTwice :
    ∃ service, exec step start stoppedTwice.dropLast = some service ∧
      (service.helper = .notLaunched ∨ service.helper = .terminating ∨
        service.helper = .ended) := by
  have run : (exec step start stoppedTwice.dropLast).isSome = true := by decide
  obtain ⟨service, run⟩ := Option.isSome_iff_exists.mp run
  have line : (exec step start stoppedTwice.dropLast).map Service.line =
      some (.reportStopped (.ok ())) := by decide
  rw [run] at line
  refine ⟨service, run, no_helper_left_running run (Option.some.inj line) ?_⟩
  intro handler code member
  simp [stoppedTwice] at member

end Service

end Kmwarp.Client
