import Kmwarp.Foundation.Separators
import Kmwarp.Net.PinnedPeer
import Mathlib.Data.Seq.Basic

/-!
# Pacing of reconnects

`connect_with_backoff` sleeps between failed connects, with a delay that every call
starts anew.  `run_client` goes on to the next call without a sleep, whatever became of
the session.
-/

namespace Kmwarp.Client

open Foundation Wire Tls Pairing Net Interaction

def backoffInitialMs : Nat := 250

def backoffMaxMs : Nat := 5000

/-- How a session ends up to its task graph; a result means that HelloAck was
accepted. -/
abbrev SessionResult : Type := Except (SessionEnd ClientError) Unit

/-- The end of a session whose HelloAck was accepted is preceded by that frame. -/
theorem helloAck_of_session_ok {crypto : Crypto} {certDer : List UInt8} {peerName : String}
    {events : List (PeerEvent crypto ClientError)}
    (trace : Trace (runOneSession crypto certDer peerName).run events (.done (.ok ()))) :
    ∃ before screenPx, events = before ++ [⟨.readFrame, .ok (.helloAck true screenPx)⟩] := by
  obtain ⟨_, securing, _, rfl, secured, afterSecured⟩ := trace_exceptBind_ok trace
  obtain ⟨_, asking, _, rfl, asked, afterAsked⟩ := trace_exceptBind_ok afterSecured
  obtain ⟨_, sending, _, rfl, wrote, afterWrote⟩ := trace_exceptBind_ok afterAsked
  obtain ⟨reply, reading, _, rfl, read, afterRead⟩ := trace_exceptBind_ok afterWrote
  obtain ⟨msg, _, _, rfl, received, answered⟩ := trace_exceptBind_ok afterRead
  obtain ⟨rfl, rfl⟩ := trace_orFail_ok received
  obtain rfl := trace_ask_ok read
  cases msg
  case helloAck accepted screenPx =>
    cases accepted with
    | false => cases answered
    | true =>
        cases answered
        exact ⟨securing ++ asking ++ sending, screenPx, by simp⟩
  all_goals cases answered

/-- The outcome of a `TcpStream::connect`, with that of the session on its connection. -/
inductive ConnectOutcome where
  | refused (error : IoError)
  | connected (session : SessionResult)

/-- What `run_client` does and is told, in order. -/
inductive ClientEvent where
  | connect
  | refused
  | session (accepted : Bool)
  | sleep (ms : Nat)
deriving DecidableEq

def SessionResult.isAccepted : SessionResult → Bool
  | .ok () => true
  | .error _ => false

/-- The one result that ends `run_client`. -/
def SessionResult.isRejected : SessionResult → Bool
  | .error (.failed .handshakeRejected) => true
  | _ => false

/-- The trace of `run_client` from a connect attempt on, with the delay that
`connect_with_backoff` has come to.  Behind the last outcome an attempt is pending. -/
def runClient (delayMs : Nat) : List ConnectOutcome → List ClientEvent
  | [] => [.connect]
  | .refused _ :: outcomes =>
      .connect :: .refused :: .sleep delayMs ::
        runClient (min (delayMs * 2) backoffMaxMs) outcomes
  | .connected session :: outcomes =>
      .connect :: .session session.isAccepted ::
        if session.isRejected then [] else runClient backoffInitialMs outcomes

/-! ## Pacing -/

/-- The attempt led to an accepted HelloAck, or the client slept before the next one. -/
def Rested (between : List ClientEvent) : Prop :=
  .session true ∈ between ∨ ∃ ms, .sleep ms ∈ between ∧ 250 ≤ ms

/-- The number of attempts that have failed since the last connection, when it was
`count` before. -/
def failuresFrom (count : Nat) (trace : List ClientEvent) : Nat :=
  trace.foldl (fun count event =>
    match event with
    | .refused => count + 1
    | .session _ => 0
    | _ => count) count

/-- The sleep behind each failed attempt, when `count` have failed before. -/
def BacksOffFrom (count : Nat) (trace : List ClientEvent) : Prop :=
  ∀ before after, trace = before ++ .refused :: after →
    after.head? = some (.sleep (min (250 * 2 ^ failuresFrom count before) 5000))

/-- Two consecutive attempts are paced, and the k-th consecutive failed attempt is
followed by a sleep of `min(250 * 2^(k-1), 5000)` ms. -/
structure Paced (trace : List ClientEvent) : Prop where
  rests : Between .connect Rested trace
  backsOff : BacksOffFrom 0 trace

/-! ## The delay -/

theorem backsOffFrom_cons {count : Nat} {event : ClientEvent} {rest : List ClientEvent} :
    BacksOffFrom count (event :: rest) ↔
      (event = .refused → rest.head? = some (.sleep (min (250 * 2 ^ count) 5000))) ∧
        BacksOffFrom (failuresFrom count [event]) rest := by
  constructor
  · intro backsOff
    refine ⟨fun isRefused => backsOff [] rest (by rw [isRefused]; rfl), ?_⟩
    intro before after split
    exact backsOff (event :: before) after (by rw [split, List.cons_append])
  · rintro ⟨here, later⟩ before after split
    cases before with
    | nil =>
        obtain ⟨isRefused, rfl⟩ := List.cons_eq_cons.mp split
        exact here isRefused
    | cons head before =>
        obtain ⟨rfl, rfl⟩ := List.cons_eq_cons.mp split
        exact later before after rfl

theorem double_backoff (count : Nat) :
    min (min (250 * 2 ^ count) 5000 * 2) backoffMaxMs = min (250 * 2 ^ (count + 1)) 5000 := by
  rw [Nat.pow_succ, backoffMaxMs]
  omega

/-- The delay is the one of the next failed attempt. -/
theorem backsOffFrom_runClient (count : Nat) (outcomes : List ConnectOutcome) :
    BacksOffFrom count (runClient (min (250 * 2 ^ count) 5000) outcomes) := by
  induction outcomes generalizing count with
  | nil =>
      intro before after split
      cases before with
      | nil => cases split
      | cons head before => simp [runClient] at split
  | cons outcome outcomes ih =>
      cases outcome with
      | refused error =>
          simp only [runClient, backsOffFrom_cons, double_backoff]
          simp only [failuresFrom, List.foldl_cons, List.foldl_nil, List.head?_cons, reduceCtorEq,
            false_implies, true_and, implies_true]
          exact ih (count + 1)
      | connected session =>
          simp only [runClient, backsOffFrom_cons]
          simp only [failuresFrom, List.foldl_cons, List.foldl_nil, reduceCtorEq, false_implies,
            true_and]
          split
          · intro before after split
            simp at split
          · exact ih 0

/-! ## Rests -/

/-- Every session that `run_client` comes to is accepted, or rejected by the server. -/
def OnlyAccepted (outcomes : Nat → Option ConnectOutcome) : Prop :=
  ∀ n (session : SessionResult), outcomes n = some (.connected session) →
    (∀ m < n, ∀ earlier : SessionResult, outcomes m = some (.connected earlier) →
      earlier.isRejected = false) →
    session.isAccepted = true ∨ session.isRejected = true

section OnlyAccepted

variable {outcomes : List ConnectOutcome}

/-- The sessions behind an outcome that does not end `run_client`. -/
theorem onlyAccepted_of_cons {outcome : ConnectOutcome}
    (goesOn : ∀ session, outcome = .connected session → session.isRejected = false)
    (accepted : OnlyAccepted ((outcome :: outcomes)[·]?)) : OnlyAccepted (outcomes[·]?) := by
  intro n session here running
  apply accepted (n + 1) session here
  intro m before earlier there
  cases m with
  | zero => exact goesOn earlier (Option.some.inj there)
  | succ m => exact running m (Nat.lt_of_succ_lt_succ before) earlier there

theorem onlyAccepted_refused {error : IoError} :
    OnlyAccepted ((.refused error :: outcomes)[·]?) ↔ OnlyAccepted (outcomes[·]?) := by
  constructor
  · exact onlyAccepted_of_cons fun session same => by cases same
  · intro accepted n session here running
    cases n with
    | zero => cases here
    | succ n =>
        exact accepted n session here fun m before earlier there =>
          running (m + 1) (Nat.succ_lt_succ before) earlier there

theorem onlyAccepted_connected {session : SessionResult} :
    OnlyAccepted ((.connected session :: outcomes)[·]?) ↔
      session.isRejected = true ∨ session.isAccepted = true ∧ OnlyAccepted (outcomes[·]?) := by
  constructor
  · intro accepted
    cases rejected : session.isRejected with
    | true => exact .inl rfl
    | false =>
        refine .inr ⟨?_, ?_⟩
        · have first := accepted 0 session rfl fun m before => absurd before m.not_lt_zero
          rw [rejected] at first
          exact first.resolve_right Bool.false_ne_true
        · apply onlyAccepted_of_cons _ accepted
          intro other same
          cases same
          exact rejected
  · intro accepted n later here running
    cases n with
    | zero =>
        cases here
        exact accepted.elim .inr fun both => .inl both.1
    | succ n =>
        have goesOn : session.isRejected = false := running 0 n.succ_pos session rfl
        rw [goesOn] at accepted
        have inRest := (accepted.resolve_left Bool.false_ne_true).2
        exact inRest n later here fun m before earlier there =>
          running (m + 1) (Nat.succ_lt_succ before) earlier there

end OnlyAccepted

theorem exists_runClient_eq (delayMs : Nat) (outcomes : List ConnectOutcome) :
    ∃ rest, runClient delayMs outcomes = .connect :: rest := by
  cases outcomes with
  | nil => exact ⟨[], rfl⟩
  | cons outcome outcomes => cases outcome <;> exact ⟨_, rfl⟩

/-- The segment in front of the next attempt is the first one. -/
theorem between_runClient {segment : List ClientEvent} (absent : .connect ∉ segment)
    (delayMs : Nat) (outcomes : List ConnectOutcome) :
    Between .connect Rested (.connect :: (segment ++ runClient delayMs outcomes)) ↔
      Rested segment ∧ Between .connect Rested (runClient delayMs outcomes) := by
  obtain ⟨rest, later⟩ := exists_runClient_eq delayMs outcomes
  rw [later]
  exact between_cons_append absent rest

/-- Every attempt rests exactly if no session is followed by another attempt without
having been accepted. -/
theorem rests_runClient {delayMs : Nat} (slow : 250 ≤ delayMs)
    (outcomes : List ConnectOutcome) :
    Between .connect Rested (runClient delayMs outcomes) ↔ OnlyAccepted (outcomes[·]?) := by
  induction outcomes generalizing delayMs with
  | nil =>
      refine iff_of_true (between_of_last List.not_mem_nil) ?_
      intro n session here
      cases here
  | cons outcome outcomes ih =>
      cases outcome with
      | refused error =>
          have stillSlow : 250 ≤ min (delayMs * 2) backoffMaxMs := by
            rw [backoffMaxMs]
            omega
          have slept : Rested [.refused, .sleep delayMs] :=
            .inr ⟨delayMs, by simp, slow⟩
          have absent : ClientEvent.connect ∉ [.refused, .sleep delayMs] := by simp
          have split := between_runClient absent (min (delayMs * 2) backoffMaxMs) outcomes
          rw [and_iff_right slept, ih stillSlow] at split
          rw [onlyAccepted_refused]
          exact split
      | connected session =>
          have absent : ClientEvent.connect ∉ [.session session.isAccepted] := by simp
          rw [runClient, onlyAccepted_connected]
          cases rejected : session.isRejected with
          | true => exact iff_of_true (between_of_last absent) (.inl rfl)
          | false =>
              have accepted : Rested [.session session.isAccepted] ↔
                  session.isAccepted = true := by
                cases session.isAccepted <;> simp [Rested]
              have split := between_runClient absent backoffInitialMs outcomes
              rw [accepted, ih (Nat.le_refl backoffInitialMs)] at split
              simp only [Bool.false_eq_true, if_false, false_or]
              exact split

theorem paced_runClient (outcomes : List ConnectOutcome) :
    Paced (runClient backoffInitialMs outcomes) ↔ OnlyAccepted (outcomes[·]?) := by
  rw [← rests_runClient (Nat.le_refl 250) outcomes]
  exact ⟨fun paced => paced.rests, fun rests => ⟨rests, backsOffFrom_runClient 0 outcomes⟩⟩

/-- The first outcomes of a sequence are those of its list. -/
theorem forall_onlyAccepted_take {outcomes : Stream'.Seq ConnectOutcome} :
    (∀ count, OnlyAccepted ((outcomes.take count)[·]?)) ↔ OnlyAccepted outcomes.get? := by
  simp only [OnlyAccepted, Stream'.Seq.getElem?_take]
  constructor
  · intro accepted n session here running
    apply accepted (n + 1) n session
    · rw [if_pos n.lt_succ_self]
      exact here
    · intro m before earlier there
      rw [if_pos (Nat.lt_succ_of_lt before)] at there
      exact running m before earlier there
  · intro accepted count n session here running
    have inside : n < count := by
      by_contra outside
      rw [if_neg outside] at here
      cases here
    rw [if_pos inside] at here
    apply accepted n session here
    intro m before earlier there
    apply running m before earlier
    rw [if_pos (Nat.lt_trans before inside)]
    exact there

/-- `run_client` is paced as long as every session it goes on from was accepted. -/
theorem paced_iff_onlyAccepted (outcomes : Stream'.Seq ConnectOutcome) :
    (∀ count, Paced (runClient backoffInitialMs (outcomes.take count))) ↔
      OnlyAccepted outcomes.get? := by
  simp only [paced_runClient]
  exact forall_onlyAccepted_take

/-- A connection on which the handshake fails. -/
theorem session_handshakeFails {crypto : Crypto} {certDer : List UInt8} {peerName : String}
    {file : PinFile} {pinned : Option PinHash} (loads : PinStore.load file = .ok pinned)
    (error : String) :
    Trace (runOneSession crypto certDer peerName).run
      [⟨.setNodelay, .ok ()⟩, ⟨.readPinFile, file⟩, ⟨.buildConfig pinned, .ok ()⟩,
        ⟨.handshake (CertVerifier.ofPinned pinned), .error error⟩]
      (.done (.error .closed)) := by
  apply Trace.step
  apply Trace.step
  simp only [Interaction.bind, Function.comp_apply, ExceptT.bindCont, loads]
  apply Trace.step
  apply Trace.step
  exact Trace.here _

/-- The next attempt comes right behind the failed handshake. -/
theorem not_paced_handshakeFails :
    ¬ ∀ outcomes : Stream'.Seq ConnectOutcome, ∀ count,
      Paced (runClient backoffInitialMs (outcomes.take count)) := by
  intro paced
  have rests := (paced (.cons (.connected (.error .closed)) .nil) 1).rests
  have rested := rests [] [.session false] [] rfl (by simp)
  simp [Rested] at rested

end Kmwarp.Client
