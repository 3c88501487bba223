import Kmwarp.Client.Pacing
import Kmwarp.Client.StuckKeys

/-!
# Sessions of one client process

Every accepted session builds an input sink of its own, and that sets the DPI awareness of
the process.  Windows lets a process set it once.
-/

namespace Kmwarp.Client

open Foundation Wire

/-- One connect with what comes of it; the frames are those that the tasks of the session
would be given. -/
structure Round where
  outcome : ConnectOutcome
  frames : List (Except ClientError Message)

/-- What the process does, in order. -/
inductive ProcessEvent where
  | publish (status : ClientStatus)
  | connect
  | refused
  | sleep (ms : Nat)
  | session (accepted : Bool)
  | sink (built : Bool)
  | injected (calls : List SinkCall)
deriving DecidableEq

inductive DpiError where
  | setAwareness (text : String)
deriving DecidableEq

/-- What `SetProcessDpiAwarenessContext` replies in one process after so many calls. -/
abbrev DpiReplies : Type := Nat → Except String Unit

/-- Windows lets a process set its awareness, and then refuses. -/
structure DpiReplies.SetOnce (replies : DpiReplies) : Prop where
  first : replies 0 = .ok ()
  later : ∀ calls, ∃ text, replies (calls + 1) = .error text

/-- The result, and how many calls have been made with this one. -/
def setPerMonitorDpiAware (replies : DpiReplies) (calls : Nat) : Except DpiError Unit × Nat :=
  ((replies calls).mapError .setAwareness, calls + 1)

/-- `run_session_tasks` as far as the sink sees it: the calls of the injector and those of
its guard's drop. -/
def runSessionTasks (env : InjectorEnv) (frames : List (Except ClientError Message)) :
    List SinkCall :=
  (injectorLoopWithSource env frames {} .empty false
    (some (.connected env.peerAddr))).dropped.sink

/-- A session from the accepted HelloAck on. -/
def acceptedSession (env : InjectorEnv) (replies : DpiReplies) (calls : Nat)
    (frames : List (Except ClientError Message)) : List ProcessEvent × Nat :=
  match setPerMonitorDpiAware replies calls with
  | (.ok (), calls) =>
      ([.publish (.connected env.peerAddr), .sink true,
        .injected (runSessionTasks env frames)], calls)
  | (.error _, calls) => ([.publish (.connected env.peerAddr), .sink false], calls)

/-- `run_client` from a connect attempt on, as in `runClient`, with the sessions and the
status of the tray. -/
def runProcess (env : InjectorEnv) (replies : DpiReplies) (calls delayMs : Nat) :
    List Round → List ProcessEvent
  | [] => [.connect]
  | ⟨.refused _, _⟩ :: rounds =>
      .connect :: .refused :: .sleep delayMs ::
        runProcess env replies calls (min (delayMs * 2) backoffMaxMs) rounds
  | ⟨.connected session, frames⟩ :: rounds =>
      let (events, calls) :=
        if session.isAccepted then acceptedSession env replies calls frames else ([], calls)
      .connect :: .session session.isAccepted :: events ++
        if session.isRejected then [.publish .idle]
        else .publish (.connecting env.peerAddr) ::
          runProcess env replies calls backoffInitialMs rounds

def runClientProcess (env : InjectorEnv) (replies : DpiReplies) (rounds : List Round) :
    List ProcessEvent :=
  .publish (.connecting env.peerAddr) :: runProcess env replies 0 backoffInitialMs rounds

/-! ## What the other models see of it -/

def ProcessEvent.clientEvent? : ProcessEvent → Option ClientEvent
  | .connect => some .connect
  | .refused => some .refused
  | .sleep ms => some (.sleep ms)
  | .session accepted => some (.session accepted)
  | .publish _ | .sink _ | .injected _ => none

def ProcessEvent.sink? : ProcessEvent → Option Bool
  | .sink built => some built
  | _ => none

def ProcessEvent.calls? : ProcessEvent → Option (List SinkCall)
  | .injected calls => some calls
  | _ => none

/-- The rounds up to a rejection. -/
def reached : List Round → List Round
  | [] => []
  | round :: rounds =>
      match round.outcome with
      | .refused _ => round :: reached rounds
      | .connected session =>
          if session.isRejected then [round] else round :: reached rounds

def Round.isAccepted (round : Round) : Bool :=
  match round.outcome with
  | .refused _ => false
  | .connected session => session.isAccepted

/-- The round is announced in the tray as connected. -/
def ProcessEvent.announces (peerAddr : String) (event : ProcessEvent) : Bool :=
  event = .publish (.connected peerAddr)

theorem isRejected_of_isAccepted {session : SessionResult} (accepted : session.isAccepted = true) :
    session.isRejected = false := by
  cases session with
  | ok result => rfl
  | error ending => cases accepted

variable {env : InjectorEnv} {replies : DpiReplies} {calls delayMs : Nat} {rounds : List Round}

theorem exists_runProcess_eq :
    ∃ rest, runProcess env replies calls delayMs rounds = .connect :: rest := by
  cases rounds with
  | nil => exact ⟨[], rfl⟩
  | cons round rounds =>
      obtain ⟨outcome, frames⟩ := round
      cases outcome <;> exact ⟨_, rfl⟩

theorem acceptedSession_of_ok {frames : List (Except ClientError Message)}
    (aware : replies calls = .ok ()) :
    acceptedSession env replies calls frames =
      ([.publish (.connected env.peerAddr), .sink true,
        .injected (runSessionTasks env frames)], calls + 1) := by
  rw [acceptedSession, setPerMonitorDpiAware, aware]
  rfl

theorem acceptedSession_of_error {frames : List (Except ClientError Message)} {text : String}
    (refused : replies calls = .error text) :
    acceptedSession env replies calls frames =
      ([.publish (.connected env.peerAddr), .sink false], calls + 1) := by
  rw [acceptedSession, setPerMonitorDpiAware, refused]
  rfl

/-- Without its sinks and statuses the process is `runClient`. -/
theorem clientEvents_runProcess :
    (runProcess env replies calls delayMs rounds).filterMap ProcessEvent.clientEvent? =
      runClient delayMs (rounds.map Round.outcome) := by
  induction rounds generalizing calls delayMs with
  | nil => rfl
  | cons round rounds ih =>
      obtain ⟨outcome, frames⟩ := round
      cases outcome with
      | refused error =>
          simp [runProcess, runClient, ProcessEvent.clientEvent?, ih]
      | connected session =>
          have silent : (acceptedSession env replies calls frames).1.filterMap
              ProcessEvent.clientEvent? = [] := by
            cases reply : replies calls with
            | ok => rw [acceptedSession_of_ok reply]; rfl
            | error text => rw [acceptedSession_of_error reply]; rfl
          cases accepted : session.isAccepted <;> cases rejected : session.isRejected <;>
            simp [runProcess, runClient, accepted, rejected, List.filterMap_cons,
              ProcessEvent.clientEvent?, ih, silent]

/-- Every accepted session is announced. -/
theorem announced_runProcess :
    (runProcess env replies calls delayMs rounds).countP
        (ProcessEvent.announces env.peerAddr) =
      (reached rounds).countP Round.isAccepted := by
  induction rounds generalizing calls delayMs with
  | nil => rfl
  | cons round rounds ih =>
      obtain ⟨outcome, frames⟩ := round
      cases outcome with
      | refused error =>
          simp [runProcess, reached, Round.isAccepted, ProcessEvent.announces, ih]
      | connected session =>
          cases accepted : session.isAccepted with
          | true =>
              have goesOn := isRejected_of_isAccepted accepted
              cases reply : replies calls with
              | ok =>
                  simp [runProcess, accepted, goesOn, acceptedSession_of_ok reply,
                    ProcessEvent.announces, ih, reached, Round.isAccepted]
              | error text =>
                  simp [runProcess, accepted, goesOn, acceptedSession_of_error reply,
                    ProcessEvent.announces, ih, reached, Round.isAccepted]
          | false =>
              cases rejected : session.isRejected <;>
                simp [runProcess, accepted, rejected, ProcessEvent.announces, ih, reached,
                  Round.isAccepted]

/-- Every accepted session asks for a sink, and gets one if its call succeeds. -/
theorem sinks_runProcess :
    (runProcess env replies calls delayMs rounds).filterMap ProcessEvent.sink? =
      (List.range ((reached rounds).countP Round.isAccepted)).map
        fun earlier => (replies (calls + earlier)).toBool := by
  induction rounds generalizing calls delayMs with
  | nil => rfl
  | cons round rounds ih =>
      obtain ⟨outcome, frames⟩ := round
      cases outcome with
      | refused error =>
          simp [runProcess, reached, Round.isAccepted, List.filterMap_cons,
            ProcessEvent.sink?, ih]
      | connected session =>
          cases accepted : session.isAccepted with
          | true =>
              have goesOn := isRejected_of_isAccepted accepted
              have moved : ∀ earlier, calls + 1 + earlier = calls + (earlier + 1) := by omega
              cases reply : replies calls with
              | ok =>
                  simp [runProcess, accepted, goesOn, acceptedSession_of_ok reply,
                    List.filterMap_cons, ProcessEvent.sink?, ih, reached, Round.isAccepted,
                    List.range_succ_eq_map, Function.comp_def, reply, moved, Except.toBool]
              | error text =>
                  simp [runProcess, accepted, goesOn, acceptedSession_of_error reply,
                    List.filterMap_cons, ProcessEvent.sink?, ih, reached, Round.isAccepted,
                    List.range_succ_eq_map, Function.comp_def, reply, moved, Except.toBool]
          | false =>
              cases rejected : session.isRejected <;>
                simp [runProcess, accepted, rejected, List.filterMap_cons, ProcessEvent.sink?,
                  ih, reached, Round.isAccepted]

/-- Once the awareness has been set nothing is injected; before that, by the next session
that is accepted. -/
theorem calls_runProcess (setOnce : replies.SetOnce) :
    (runProcess env replies calls delayMs rounds).filterMap ProcessEvent.calls? =
      if calls = 0 then
        ((reached rounds).find? Round.isAccepted).toList.map
          fun round => runSessionTasks env round.frames
      else [] := by
  induction rounds generalizing calls delayMs with
  | nil => split <;> rfl
  | cons round rounds ih =>
      obtain ⟨outcome, frames⟩ := round
      cases outcome with
      | refused error =>
          simp [runProcess, reached, Round.isAccepted, List.filterMap_cons,
            ProcessEvent.calls?, ih]
      | connected session =>
          cases accepted : session.isAccepted with
          | true =>
              have goesOn := isRejected_of_isAccepted accepted
              cases calls with
              | zero =>
                  simp [runProcess, accepted, goesOn, acceptedSession_of_ok setOnce.first,
                    List.filterMap_cons, ProcessEvent.calls?, ih, reached, Round.isAccepted]
              | succ calls =>
                  obtain ⟨text, refused⟩ := setOnce.later calls
                  simp [runProcess, accepted, goesOn, acceptedSession_of_error refused,
                    List.filterMap_cons, ProcessEvent.calls?, ih]
          | false =>
              cases rejected : session.isRejected <;>
                simp [runProcess, accepted, rejected, List.filterMap_cons, ProcessEvent.calls?,
                  ih, reached, Round.isAccepted]

/-- A session without a sink is followed by the next attempt. -/
theorem reconnects_runProcess : ∀ before after,
    runProcess env replies calls delayMs rounds = before ++ .sink false :: after →
      ∃ rest, after = .publish (.connecting env.peerAddr) :: .connect :: rest := by
  induction rounds generalizing calls delayMs with
  | nil => simp [runProcess, forall_split_cons]
  | cons round rounds ih =>
      obtain ⟨outcome, frames⟩ := round
      cases outcome with
      | refused error =>
          simpa [runProcess, forall_split_cons] using ih
      | connected session =>
          have next : ∀ calls, ∃ rest,
              runProcess env replies calls backoffInitialMs rounds = .connect :: rest :=
            fun _ => exists_runProcess_eq
          cases accepted : session.isAccepted with
          | true =>
              have goesOn := isRejected_of_isAccepted accepted
              cases reply : replies calls with
              | ok =>
                  simpa [runProcess, accepted, goesOn, acceptedSession_of_ok reply,
                    forall_split_cons] using ih
              | error text =>
                  simpa [runProcess, accepted, goesOn, acceptedSession_of_error reply,
                    forall_split_cons] using ⟨next (calls + 1), ih⟩
          | false =>
              cases rejected : session.isRejected with
              | false => simpa [runProcess, accepted, rejected, forall_split_cons] using ih
              | true => simp [runProcess, accepted, rejected, forall_split_cons]

/-- Only the first accepted session of a process gets a sink and injects anything.  The
process makes the attempts of `runClient`, and announces every accepted session as
connected; but from the second one on there is no sink, and the next attempt follows at
once. -/
theorem only_first_session_injects (env : InjectorEnv) (replies : DpiReplies)
    (setOnce : replies.SetOnce) (rounds : List Round) :
    let trace := runClientProcess env replies rounds
    let accepted := (reached rounds).countP Round.isAccepted
    trace.filterMap ProcessEvent.clientEvent? =
        runClient backoffInitialMs (rounds.map Round.outcome) ∧
      trace.countP (ProcessEvent.announces env.peerAddr) = accepted ∧
      trace.filterMap ProcessEvent.sink? =
        (List.range accepted).map (fun earlier => decide (earlier = 0)) ∧
      trace.filterMap ProcessEvent.calls? =
        ((reached rounds).find? Round.isAccepted).toList.map
          (fun round => runSessionTasks env round.frames) ∧
      ∀ before after, trace = before ++ .sink false :: after →
        ∃ rest, after = .publish (.connecting env.peerAddr) :: .connect :: rest := by
  refine ⟨?_, ?_, ?_, ?_, ?_⟩
  · exact clientEvents_runProcess
  · simpa [runClientProcess, ProcessEvent.announces] using announced_runProcess
  · refine sinks_runProcess.trans (List.map_congr_left fun earlier _ => ?_)
    rw [Nat.zero_add]
    cases earlier with
    | zero => rw [setOnce.first]; rfl
    | succ earlier =>
        obtain ⟨text, refused⟩ := setOnce.later earlier
        rw [refused]
        rfl
  · exact calls_runProcess setOnce
  · simpa [runClientProcess, forall_split_cons] using reconnects_runProcess

/-- Two sessions, each with a key that goes down. -/
def twoSessions : List Round :=
  [⟨.connected (.ok ()), [.ok (.keyEvent 0x04 KeyStateCode.down 0)]⟩,
    ⟨.connected (.ok ()), [.ok (.keyEvent 0x05 KeyStateCode.down 0)]⟩]

def accessDenied : DpiReplies
  | 0 => .ok ()
  | _ + 1 => .error "Access is denied. (0x80070005)"

/-- The second session gets no sink, and its key is not injected. -/
theorem only_first_session_injects_twoSessions :
    let trace := runClientProcess ⟨fun _ => .replicate 32 0, fun _ _ => true, "peer"⟩
      accessDenied twoSessions
    trace.filterMap ProcessEvent.sink? = [true, false] ∧
      trace.filterMap ProcessEvent.calls? =
        [[.injectKey 0x04 .down {}, .injectKey 0x04 .up {}]] := by
  obtain ⟨_, _, sinks, calls, _⟩ := only_first_session_injects
    ⟨fun _ => .replicate 32 0, fun _ _ => true, "peer"⟩ accessDenied
    ⟨rfl, fun _ => ⟨_, rfl⟩⟩ twoSessions
  exact ⟨sinks.trans (by decide), calls.trans (by decide)⟩

end Kmwarp.Client
