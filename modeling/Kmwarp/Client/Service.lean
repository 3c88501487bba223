import Kmwarp.Foundation.History
import Kmwarp.Foundation.Resources

/-!
# The Windows service

The service thread launches the helper into the user's session and waits for it; the
handlers of stop requests run on threads of the service control manager.  They share the
slot with the process handle of the helper.  Every Win32 call and every access of the slot
is a step of its own, with the reply of the call in the label.
-/

namespace Kmwarp.Client

open Foundation

inductive ServiceError where
  | io (code : Nat)
  | windowsService (code : Nat)
  | win32 (code : Nat)
  | noActiveSession
deriving DecidableEq

/-- What the service opens. -/
inductive ServiceHandle where
  | userToken
  | primaryToken
  | environmentBlock
  | process
  | thread
deriving DecidableEq

/-- A call that fails gives the code of the error. -/
abbrev Reply := Except Nat Unit

/-- Where the service thread stands in `run_service_inner` and in
`spawn_user_session_helper_and_wait`: each line is named for its next call. -/
inductive ServiceLine where
  | register
  | reportRunning
  | activeSession
  | queryUserToken
  | duplicateToken
  | closeUserToken (duplicated : Reply)
  | createEnvironment
  | closeTokenEarly (code : Nat)
  | currentExe
  | createProcess
  | destroyEnvironment (created : Reply)
  | closePrimaryToken (created : Reply)
  | initSlot
  | storeHandle
  | wait
  | takeLeftover
  | closeLeftover
  | closeThread
  | reportStopped (spawned : Except ServiceError Unit)
  | finished (spawned : Option (Except ServiceError Unit)) (result : Except ServiceError Unit)
deriving DecidableEq

/-- Where a handler stands in `terminate_helper_if_running`. -/
inductive HandlerLine where
  | readSlot
  | takeHandle
  | terminate
  | closeHandle
  | returned
deriving DecidableEq

/-- `HELPER_PROCESS_HANDLE`: the cell may not have been set, and zero is no handle. -/
inductive HandleSlot where
  | unset
  | zero
  | handle
deriving DecidableEq

inductive HelperState where
  | notLaunched
  | running
  | terminating
  | ended
deriving DecidableEq

inductive ServiceControl where
  | stop
  | shutdown
  | interrogate
  | other
deriving DecidableEq

structure Service where
  line : ServiceLine
  slot : HandleSlot
  handlers : List HandlerLine
  helper : HelperState
  /-- The last status reported accepts stop and shutdown. -/
  accepting : Bool
  ledger : Ledger ServiceHandle
  terminateCalls : Nat
deriving DecidableEq

inductive ServiceStep where
  | register (reply : Reply)
  | reportRunning (reply : Reply)
  | activeSession (sessionId : Nat)
  | queryUserToken (reply : Reply)
  | duplicateToken (reply : Reply)
  | closeUserToken
  | createEnvironment (reply : Reply)
  | closeTokenEarly
  | currentExe (reply : Reply)
  | createProcess (reply : Reply)
  | destroyEnvironment
  | closePrimaryToken
  | initSlot
  | storeHandle
  | waitReturns
  | takeLeftover
  | closeLeftover
  | closeThread
  | reportStopped (reply : Reply)
  | helperExits
  | deliver (control : ServiceControl)
  | readSlot (handler : Nat)
  | takeHandle (handler : Nat)
  | terminate (handler : Nat) (reply : Reply)
  | closeHandle (handler : Nat)
deriving DecidableEq

/-- The handle is in the slot, or a handler has taken it. -/
def ServiceLine.duringWait : ServiceLine → Bool
  | .wait | .takeLeftover => true
  | _ => false

/-- The service thread has taken back what was left in the slot. -/
def ServiceLine.pastLeftover : ServiceLine → Bool
  | .closeLeftover | .closeThread | .reportStopped (.ok ()) | .finished (some (.ok ())) _ => true
  | _ => false

/-- The wait has returned. -/
def ServiceLine.pastWait : ServiceLine → Bool
  | .takeLeftover => true
  | line => line.pastLeftover

/-- There is no helper, as far as the service knows. -/
def ServiceLine.withoutHelper : ServiceLine → Bool
  | .register | .reportRunning | .activeSession | .queryUserToken | .duplicateToken
  | .closeUserToken _ | .createEnvironment | .closeTokenEarly _ | .currentExe | .createProcess
  | .destroyEnvironment (.error _) | .closePrimaryToken (.error _) | .reportStopped (.error _)
  | .finished none _ | .finished (some (.error _)) _ => true
  | _ => false

/-- The calls of the service thread that neither launch the helper nor wait for it nor use
the handle of its process. -/
def ServiceStep.routine : ServiceStep → Bool
  | .register _ | .reportRunning _ | .activeSession _ | .queryUserToken _ | .duplicateToken _
  | .closeUserToken | .createEnvironment _ | .closeTokenEarly | .currentExe _
  | .createProcess (.error _) | .destroyEnvironment | .closePrimaryToken | .initSlot
  | .closeThread | .reportStopped _ => true
  | _ => false

namespace Service

def start : Service where
  line := .register
  slot := .unset
  handlers := []
  helper := .notLaunched
  accepting := false
  ledger := .empty
  terminateCalls := 0

def moveTo (service : Service) (line : ServiceLine) : Service := { service with line }

def acquire (service : Service) (handle : ServiceHandle) : Service :=
  { service with ledger := service.ledger.acquire handle }

/-- `CloseHandle` or `DestroyEnvironmentBlock`; what it returns is not looked at. -/
def close (service : Service) (handle : ServiceHandle) : Service :=
  { service with ledger := service.ledger.release handle }

/-- `spawn_user_session_helper_and_wait` returns; the error is only logged. -/
def spawnReturns (service : Service) (spawned : Except ServiceError Unit) : Service :=
  service.moveTo (.reportStopped spawned)

/-- The session id for "no console session". -/
def noSession : Nat := 0xFFFFFFFF

/-- A step at its line. -/
def atLine (service : Service) (line : ServiceLine) (next : Service) : Option Service :=
  if service.line = line then some next else none

/-- The handler with the number goes on. -/
def setHandler (service : Service) (handler : Nat) (line : HandlerLine) : Service :=
  { service with handlers := service.handlers.set handler line }

@[simp] theorem setHandler_line (service : Service) (handler : Nat) (line : HandlerLine) :
    (service.setHandler handler line).line = service.line := rfl

@[simp] theorem setHandler_terminateCalls (service : Service) (handler : Nat)
    (line : HandlerLine) :
    (service.setHandler handler line).terminateCalls = service.terminateCalls := rfl

def atHandler (service : Service) (handler : Nat) (line : HandlerLine) (next : Service) :
    Option Service :=
  if service.handlers[handler]? = some line then some next else none

/-- The wait ends with the helper.  On a handle that is closed it fails at once, and if a
handle is closed while the wait is pending, anything may happen. -/
def waitEnds (service : Service) : Prop :=
  service.helper = .ended ∨ .process ∈ service.ledger.released

instance (service : Service) : Decidable service.waitEnds :=
  inferInstanceAs (Decidable (_ ∨ _))

def step (service : Service) : ServiceStep → Option Service
  | .register reply => service.atLine .register (match reply with
      | .ok () => service.moveTo .reportRunning
      | .error code => service.moveTo (.finished none (.error (.windowsService code))))
  | .reportRunning reply => service.atLine .reportRunning (match reply with
      | .ok () => { service.moveTo .activeSession with accepting := true }
      | .error code => service.moveTo (.finished none (.error (.windowsService code))))
  | .activeSession sessionId => service.atLine .activeSession (
      if sessionId = noSession then service.spawnReturns (.error .noActiveSession)
      else service.moveTo .queryUserToken)
  | .queryUserToken reply => service.atLine .queryUserToken (match reply with
      | .ok () => (service.acquire .userToken).moveTo .duplicateToken
      | .error code => service.spawnReturns (.error (.win32 code)))
  | .duplicateToken reply => service.atLine .duplicateToken (match reply with
      | .ok () => (service.acquire .primaryToken).moveTo (.closeUserToken reply)
      | .error _ => service.moveTo (.closeUserToken reply))
  | .closeUserToken => match service.line with
      | .closeUserToken (.ok ()) => some ((service.close .userToken).moveTo .createEnvironment)
      | .closeUserToken (.error code) =>
          some ((service.close .userToken).spawnReturns (.error (.win32 code)))
      | _ => none
  | .createEnvironment reply => service.atLine .createEnvironment (match reply with
      | .ok () => (service.acquire .environmentBlock).moveTo .currentExe
      | .error code => service.moveTo (.closeTokenEarly code))
  | .closeTokenEarly => match service.line with
      | .closeTokenEarly code =>
          some ((service.close .primaryToken).spawnReturns (.error (.win32 code)))
      | _ => none
  | .currentExe reply => service.atLine .currentExe (match reply with
      | .ok () => service.moveTo .createProcess
      -- the `?` leaves the token and the environment block behind
      | .error code => service.spawnReturns (.error (.io code)))
  | .createProcess reply => service.atLine .createProcess (match reply with
      | .ok () =>
          { ((service.acquire .process).acquire .thread).moveTo (.destroyEnvironment reply) with
            helper := .running }
      | .error _ => service.moveTo (.destroyEnvironment reply))
  | .destroyEnvironment => match service.line with
      | .destroyEnvironment created =>
          some ((service.close .environmentBlock).moveTo (.closePrimaryToken created))
      | _ => none
  | .closePrimaryToken => match service.line with
      | .closePrimaryToken (.ok ()) => some ((service.close .primaryToken).moveTo .initSlot)
      | .closePrimaryToken (.error code) =>
          some ((service.close .primaryToken).spawnReturns (.error (.win32 code)))
      | _ => none
  | .initSlot => service.atLine .initSlot
      { service.moveTo .storeHandle with
        slot := if service.slot = .unset then .zero else service.slot }
  | .storeHandle => service.atLine .storeHandle { service.moveTo .wait with slot := .handle }
  | .waitReturns =>
      if service.waitEnds then service.atLine .wait (service.moveTo .takeLeftover) else none
  | .takeLeftover => service.atLine .takeLeftover
      { service.moveTo (if service.slot = .handle then .closeLeftover else .closeThread) with
        slot := .zero }
  | .closeLeftover => service.atLine .closeLeftover
      ((service.close .process).moveTo .closeThread)
  | .closeThread => service.atLine .closeThread ((service.close .thread).spawnReturns (.ok ()))
  | .reportStopped reply => match service.line with
      | .reportStopped spawned => some (match reply with
          | .ok () =>
              { service.moveTo (.finished (some spawned) (.ok ())) with accepting := false }
          | .error code =>
              service.moveTo (.finished (some spawned) (.error (.windowsService code))))
      | _ => none
  | .helperExits =>
      if service.helper = .running ∨ service.helper = .terminating then
        some { service with helper := .ended }
      else none
  | .deliver control => match control with
      | .stop | .shutdown =>
          if service.accepting then
            some { service with handlers := service.handlers ++ [.readSlot] }
          else none
      | .interrogate | .other => some service
  | .readSlot handler => service.atHandler handler .readSlot
      (service.setHandler handler (if service.slot = .unset then .returned else .takeHandle))
  | .takeHandle handler => service.atHandler handler .takeHandle
      { service.setHandler handler (if service.slot = .handle then .terminate else .returned) with
        slot := .zero }
  | .terminate handler reply => service.atHandler handler .terminate
      { service.setHandler handler .closeHandle with
        terminateCalls := service.terminateCalls + 1
        helper := if reply = .ok () ∧ service.helper = .running then .terminating
          else service.helper }
  | .closeHandle handler => service.atHandler handler .closeHandle
      ((service.close .process).setHandler handler .returned)

/-- The service thread is done, and no handler is left to run. -/
def Settled (service : Service) (spawned : Option (Except ServiceError Unit))
    (result : Except ServiceError Unit) : Prop :=
  service.line = .finished spawned result ∧ ∀ handler ∈ service.handlers, handler = .returned

instance (service : Service) (spawned : Option (Except ServiceError Unit))
    (result : Except ServiceError Unit) : Decidable (service.Settled spawned result) :=
  inferInstanceAs (Decidable (_ ∧ _))

/-- A run in which a stop and a shutdown come while the helper runs: the first handler takes
the handle, the second finds none. -/
def stoppedTwice : List ServiceStep :=
  [.register (.ok ()), .reportRunning (.ok ()), .activeSession 1, .queryUserToken (.ok ()),
    .duplicateToken (.ok ()), .closeUserToken, .createEnvironment (.ok ()), .currentExe (.ok ()),
    .createProcess (.ok ()), .destroyEnvironment, .closePrimaryToken, .initSlot, .storeHandle,
    .deliver .stop, .deliver .shutdown, .readSlot 0, .readSlot 1, .takeHandle 0, .takeHandle 1,
    .terminate 0 (.ok ()), .closeHandle 0, .helperExits, .waitReturns, .takeLeftover,
    .closeThread, .reportStopped (.ok ())]

variable {service next : Service}

theorem atLine_eq_some {line : ServiceLine} {result : Service} :
    service.atLine line result = some next ↔ service.line = line ∧ result = next := by
  simp [atLine]

theorem atHandler_eq_some {handler : Nat} {line : HandlerLine} {result : Service} :
    service.atHandler handler line result = some next ↔
      service.handlers[handler]? = some line ∧ result = next := by
  simp [atHandler]

theorem waitReturns_eq_some :
    service.step .waitReturns = some next ↔
      service.waitEnds ∧ service.line = .wait ∧ service.moveTo .takeLeftover = next := by
  by_cases ends : service.waitEnds
  · simp [step, ends, atLine_eq_some]
  · simp [step, ends]

theorem helperExits_eq_some :
    service.step .helperExits = some next ↔
      (service.helper = .running ∨ service.helper = .terminating) ∧
        { service with helper := .ended } = next := by
  by_cases alive : service.helper = .running ∨ service.helper = .terminating
  · simp [step, alive]
  · simp [step, alive]

/-- A stop or a shutdown starts a handler, other requests change nothing. -/
theorem deliver_eq_some {control : ServiceControl}
    (taken : service.step (.deliver control) = some next) :
    next = service ∨ next = { service with handlers := service.handlers ++ [.readSlot] } := by
  cases control with
  | interrogate => exact .inl (Option.some.inj taken).symm
  | other => exact .inl (Option.some.inj taken).symm
  | stop =>
      simp only [step] at taken
      split at taken
      · exact .inr (Option.some.inj taken).symm
      · cases taken
  | shutdown =>
      simp only [step] at taken
      split at taken
      · exact .inr (Option.some.inj taken).symm
      · cases taken

/-- A step of the service thread that leaves the helper and everything shared alone. -/
structure Serves (service next : Service) : Prop where
  slot : next.slot = .handle ↔ service.slot = .handle
  handlers : next.handlers = service.handlers
  helper : next.helper = service.helper
  calls : next.terminateCalls = service.terminateCalls
  released : .process ∈ next.ledger.released ↔ .process ∈ service.ledger.released
  duringWait : next.line.duringWait = service.line.duringWait
  pastLeftover : next.line.pastLeftover = service.line.pastLeftover
  pastWait : next.line.pastWait = service.line.pastWait
  withoutHelper : next.line.withoutHelper = service.line.withoutHelper

theorem Serves.of_line {line : ServiceLine} (current : service.line = line)
    (slot : next.slot = .handle ↔ service.slot = .handle)
    (released : .process ∈ next.ledger.released ↔ .process ∈ service.ledger.released)
    (same : next.handlers = service.handlers ∧ next.helper = service.helper ∧
      next.terminateCalls = service.terminateCalls)
    (duringWait : next.line.duringWait = line.duringWait)
    (pastLeftover : next.line.pastLeftover = line.pastLeftover)
    (pastWait : next.line.pastWait = line.pastWait)
    (withoutHelper : next.line.withoutHelper = line.withoutHelper) : Serves service next := by
  subst current
  exact ⟨slot, same.1, same.2.1, same.2.2, released, duringWait, pastLeftover, pastWait,
    withoutHelper⟩

variable {label : ServiceStep}

theorem serves_of_step (taken : service.step label = some next) (routine : label.routine = true) :
    Serves service next := by
  cases label with
  | register reply =>
      obtain ⟨line, rfl⟩ := atLine_eq_some.mp taken
      cases reply <;> exact .of_line line .rfl .rfl ⟨rfl, rfl, rfl⟩ rfl rfl rfl rfl
  | reportRunning reply =>
      obtain ⟨line, rfl⟩ := atLine_eq_some.mp taken
      cases reply <;> exact .of_line line .rfl .rfl ⟨rfl, rfl, rfl⟩ rfl rfl rfl rfl
  | activeSession sessionId =>
      obtain ⟨line, rfl⟩ := atLine_eq_some.mp taken
      split <;> exact .of_line line .rfl .rfl ⟨rfl, rfl, rfl⟩ rfl rfl rfl rfl
  | queryUserToken reply =>
      obtain ⟨line, rfl⟩ := atLine_eq_some.mp taken
      cases reply <;> exact .of_line line .rfl .rfl ⟨rfl, rfl, rfl⟩ rfl rfl rfl rfl
  | duplicateToken reply =>
      obtain ⟨line, rfl⟩ := atLine_eq_some.mp taken
      cases reply <;> exact .of_line line .rfl .rfl ⟨rfl, rfl, rfl⟩ rfl rfl rfl rfl
  | closeUserToken =>
      cases line : service.line with
      | closeUserToken duplicated =>
          cases duplicated with
          | ok =>
              simp only [step, line] at taken
              obtain rfl := Option.some.inj taken
              exact .of_line line .rfl (by simp [close, moveTo]) ⟨rfl, rfl, rfl⟩ rfl rfl rfl rfl
          | error code =>
              simp only [step, line] at taken
              obtain rfl := Option.some.inj taken
              exact .of_line line .rfl (by simp [close, spawnReturns, moveTo]) ⟨rfl, rfl, rfl⟩
                rfl rfl rfl rfl
      | _ => simp [step, line] at taken
  | createEnvironment reply =>
      obtain ⟨line, rfl⟩ := atLine_eq_some.mp taken
      cases reply <;> exact .of_line line .rfl .rfl ⟨rfl, rfl, rfl⟩ rfl rfl rfl rfl
  | closeTokenEarly =>
      cases line : service.line with
      | closeTokenEarly code =>
          simp only [step, line] at taken
          obtain rfl := Option.some.inj taken
          exact .of_line line .rfl (by simp [close, spawnReturns, moveTo]) ⟨rfl, rfl, rfl⟩
            rfl rfl rfl rfl
      | _ => simp [step, line] at taken
  | currentExe reply =>
      obtain ⟨line, rfl⟩ := atLine_eq_some.mp taken
      cases reply <;> exact .of_line line .rfl .rfl ⟨rfl, rfl, rfl⟩ rfl rfl rfl rfl
  | createProcess reply =>
      obtain ⟨line, rfl⟩ := atLine_eq_some.mp taken
      cases reply with
      | ok => cases routine
      | error code => exact .of_line line .rfl .rfl ⟨rfl, rfl, rfl⟩ rfl rfl rfl rfl
  | destroyEnvironment =>
      cases line : service.line with
      | destroyEnvironment created =>
          simp only [step, line] at taken
          obtain rfl := Option.some.inj taken
          cases created <;>
            exact .of_line line .rfl (by simp [close, moveTo]) ⟨rfl, rfl, rfl⟩ rfl rfl rfl rfl
      | _ => simp [step, line] at taken
  | closePrimaryToken =>
      cases line : service.line with
      | closePrimaryToken created =>
          cases created with
          | ok =>
              simp only [step, line] at taken
              obtain rfl := Option.some.inj taken
              exact .of_line line .rfl (by simp [close, moveTo]) ⟨rfl, rfl, rfl⟩ rfl rfl rfl rfl
          | error code =>
              simp only [step, line] at taken
              obtain rfl := Option.some.inj taken
              exact .of_line line .rfl (by simp [close, spawnReturns, moveTo]) ⟨rfl, rfl, rfl⟩
                rfl rfl rfl rfl
      | _ => simp [step, line] at taken
  | initSlot =>
      obtain ⟨line, rfl⟩ := atLine_eq_some.mp taken
      refine .of_line line ?_ .rfl ⟨rfl, rfl, rfl⟩ rfl rfl rfl rfl
      cases slot : service.slot <;> simp
  | closeThread =>
      obtain ⟨line, rfl⟩ := atLine_eq_some.mp taken
      exact .of_line line .rfl (by simp [close, spawnReturns, moveTo]) ⟨rfl, rfl, rfl⟩
        rfl rfl rfl rfl
  | reportStopped reply =>
      cases line : service.line with
      | reportStopped spawned =>
          simp only [step, line] at taken
          obtain rfl := Option.some.inj taken
          cases reply <;> cases spawned <;>
            exact .of_line line .rfl .rfl ⟨rfl, rfl, rfl⟩ rfl rfl rfl rfl
      | _ => simp [step, line] at taken
  | _ => cases routine

end Service

end Kmwarp.Client
