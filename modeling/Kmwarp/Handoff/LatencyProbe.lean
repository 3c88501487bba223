import Kmwarp.Foundation.History
import Kmwarp.Foundation.Relay
import Kmwarp.Handoff.Ownership

/-!
# Latency probe

The prober stamps pings with the clock of the session, the client echoes the stamp and the
reader records how old it is.  Pings and pongs go through the channels of the handoff
system, among everything else that is sent there.
-/

namespace Kmwarp.Server

def latencyProbeSamplesPerReport : Nat := 1000

/-- The upper bound of the histogram, in nanoseconds. -/
def latencyBoundNs : Nat := 60 * 1000000000

/-- `LatencyStateInner`: the histogram is the list of the values recorded in it, and a
report is the number of samples it is about. -/
structure LatencyState where
  hist : List Nat
  samplesSinceReport : Nat
  totalSamples : Nat
  reports : List Nat
deriving DecidableEq

namespace LatencyState

def new : LatencyState := ⟨[], 0, 0, []⟩

def record (state : LatencyState) (rttNs : Nat) : LatencyState :=
  let state :=
    { state with
      hist := state.hist ++ [min rttNs latencyBoundNs]
      samplesSinceReport := state.samplesSinceReport + 1
      totalSamples := state.totalSamples + 1 }
  if latencyProbeSamplesPerReport ≤ state.samplesSinceReport then
    { state with
      reports := state.reports ++ [state.totalSamples]
      samplesSinceReport := 0 }
  else state

/-- Every thousandth sample is reported. -/
structure Regular (state : LatencyState) : Prop where
  total : state.totalSamples = state.hist.length
  pending : state.samplesSinceReport < latencyProbeSamplesPerReport
  split : state.totalSamples =
    latencyProbeSamplesPerReport * state.reports.length + state.samplesSinceReport

theorem regular_new : new.Regular := ⟨rfl, by decide, rfl⟩

@[simp] theorem hist_record (state : LatencyState) (rttNs : Nat) :
    (state.record rttNs).hist = state.hist ++ [min rttNs latencyBoundNs] := by
  unfold record
  dsimp only
  split <;> rfl

theorem regular_record {state : LatencyState} (regular : state.Regular) (rttNs : Nat) :
    (state.record rttNs).Regular := by
  obtain ⟨total, pending, split⟩ := regular
  by_cases due : latencyProbeSamplesPerReport ≤ state.samplesSinceReport + 1
  · simp only [record, if_pos due]
    refine ⟨by simp [total], Nat.zero_lt_succ _, ?_⟩
    simp only [List.length_append, List.length_singleton, Nat.mul_add, Nat.mul_one]
    omega
  · simp only [record, if_neg due]
    refine ⟨by simp [total], Nat.lt_of_not_le due, ?_⟩
    simp only
    omega

end LatencyState

end Kmwarp.Server

namespace Kmwarp

open Foundation Wire

/-- The handoff system with the clock of the session and the latency probe.  `queued` are
the clock readings whose ping the channel took, `refused` counts the pongs that the
client's channel did not take. -/
structure Probe where
  handoff : Handoff
  clockNs : Nat
  latency : Server.LatencyState
  queued : List Nat
  refused : Nat

inductive ProbeLabel where
  | elapse (ns : Nat)
  | tick
  | run (label : HandoffLabel ⊕ Client.WatcherAction)
deriving DecidableEq

namespace Probe

def start (env : HandoffEnv) (statusTx : Option Client.ClientStatus) : Probe where
  handoff := .start env statusTx
  clockNs := 0
  latency := .new
  queued := []
  refused := 0

/-- Only the prober sends pings, and the client's injector pongs. -/
def isForeign : HandoffLabel ⊕ Client.WatcherAction → Bool
  | .inl (.serverSend (.echoPing _)) | .inl (.clientSend (.echoPong _)) => true
  | _ => false

/-- The stamp of the pong that the reader takes next. -/
def answered? (handoff : Handoff) : HandoffLabel ⊕ Client.WatcherAction → Option UInt64
  | .inl .serverRead =>
      match handoff.toServer with
      | .echoPong tsNs :: _ => some tsNs
      | _ => none
  | _ => none

/-- The client has no room for the pong it owes. -/
def refuses (handoff : Handoff) : HandoffLabel ⊕ Client.WatcherAction → Bool
  | .inl .clientDispatch =>
      match handoff.toClient with
      | .echoPing _ :: _ => !(handoff.client.txOut.items.length < Client.outboundChannelBound)
      | _ => false
  | _ => false

/-- `start.elapsed().as_nanos() as u64` -/
def elapsedNs (probe : Probe) : UInt64 :=
  .ofNat probe.clockNs

def step (env : HandoffEnv) (probe : Probe) : ProbeLabel → Option Probe
  | .elapse ns => some { probe with clockNs := probe.clockNs + ns }
  | .tick =>
      match probe.handoff.serverOut.trySend (.echoPing probe.elapsedNs) with
      | some serverOut =>
          some { probe with
            handoff := { probe.handoff with serverOut := serverOut }
            queued := probe.queued ++ [probe.clockNs] }
      | none => some probe
  | .run label =>
      if isForeign label then none
      else
        match probe.handoff.step env label with
        | none => none
        | some handoff =>
            some { probe with
              handoff := handoff
              latency :=
                match answered? probe.handoff label with
                -- `now_ns.saturating_sub(ts_ns)`
                | some tsNs => probe.latency.record (probe.elapsedNs.toNat - tsNs.toNat)
                | none => probe.latency
              refused := probe.refused + (refuses probe.handoff label).toNat }

/-- The clock when the reader takes a pong. -/
def pongReadAt? (probe : Probe) : ProbeLabel → Option Nat
  | .run label => (answered? probe.handoff label).map fun _ => probe.clockNs
  | .elapse _ | .tick => none

end Probe

/-! ## Pings and pongs under way -/

def Wire.Message.ping? : Message → Option UInt64
  | .echoPing tsNs => some tsNs
  | _ => none

def Wire.Message.pong? : Message → Option UInt64
  | .echoPong tsNs => some tsNs
  | _ => none

/-- The stamps under way, those that come back first in front. -/
def Handoff.stamps (handoff : Handoff) : List UInt64 :=
  handoff.toServer.filterMap Message.pong? ++
    (handoff.client.txOut.items.filterMap Message.pong? ++
      (handoff.toClient.filterMap Message.ping? ++
        handoff.serverOut.items.filterMap Message.ping?))

theorem ping?_of_sent {env : Server.BrainEnv} {brain next : Server.Brain}
    {input : Server.BrainInput} {effects : List Server.Effect}
    (turn : Server.BrainTurn env brain input next effects) :
    ∀ msg ∈ Server.sends effects, msg.ping? = none := by
  intro msg member
  have foreground := Server.foreground_of_sent turn msg member
  cases msg <;> first | rfl | cases foreground

/-- Only a ping makes the injector send. -/
theorem Client.txOut_dispatchOne {env : Client.InjectorEnv} {msg : Message}
    {session next : Client.Session} (notPing : msg.ping? = none)
    (dispatched : Client.dispatchOne env msg session = .ok next) :
    next.txOut = session.txOut := by
  cases msg
  case echoPing => cases notPing
  case keyEvent hidUsage state modifiers =>
    cases decoded : byteToKeyState state <;>
      · simp only [Client.dispatchOne, applyMouseToSink, applyKeyToSink, decoded] at dispatched
        cases dispatched
        rfl
  case mouseButton button state =>
    cases decodedButton : byteToMouseButton button <;>
      cases decodedState : byteToKeyState state <;>
      · simp only [Client.dispatchOne, applyMouseToSink, decodedButton, decodedState]
          at dispatched
        cases dispatched
        rfl
  all_goals
    cases dispatched
    rfl

namespace Probe

variable {env : HandoffEnv} {handoff next : Handoff}
  {label : HandoffLabel ⊕ Client.WatcherAction}

/-- What a step does to the stamps under way. -/
inductive StampTurn (handoff next : Handoff) (label : HandoffLabel ⊕ Client.WatcherAction) :
    Prop where
  | keeps (unanswered : answered? handoff label = none) (accepts : refuses handoff label = false)
      (same : next.stamps = handoff.stamps)
  | answers (tsNs : UInt64) (answered : answered? handoff label = some tsNs)
      (accepts : refuses handoff label = false) (front : handoff.stamps = tsNs :: next.stamps)
  | loses (before after : List UInt64) (tsNs : UInt64)
      (unanswered : answered? handoff label = none) (refused : refuses handoff label = true)
      (had : handoff.stamps = before ++ tsNs :: after)
      (left : next.stamps = before ++ after)

theorem stampTurn_clientDispatch (moved : handoff.move env .clientDispatch = some next) :
    StampTurn handoff next (.inl .clientDispatch) := by
  simp only [Handoff.move] at moved
  cases toClient : handoff.toClient with
  | nil => simp [toClient] at moved
  | cons msg later =>
      obtain ⟨session, dispatched, -⟩ := Client.dispatchOne_spec env.client msg handoff.client
      cases msg
      case bye => simp [toClient] at moved
      case echoPing tsNs =>
        simp only [toClient, dispatched, Option.some.injEq] at moved
        subst moved
        have echoed : session.txOut = handoff.client.txOut.offer (.echoPong tsNs) := by
          cases dispatched
          rfl
        by_cases room : handoff.client.txOut.items.length < Client.outboundChannelBound
        · refine .keeps rfl (by simp [refuses, toClient, room]) ?_
          simp [Handoff.stamps, toClient, echoed, Mailbox.items_offer_of_room room,
            Message.ping?, Message.pong?]
        · have full : session.txOut = handoff.client.txOut := by
            rw [echoed, Mailbox.offer, Mailbox.trySend_of_full room, Option.getD_none]
          refine .loses
            (handoff.toServer.filterMap Message.pong? ++
              handoff.client.txOut.items.filterMap Message.pong?)
            (later.filterMap Message.ping? ++ handoff.serverOut.items.filterMap Message.ping?)
            tsNs rfl (by simp [refuses, toClient, room]) ?_ ?_
          · simp [Handoff.stamps, toClient, Message.ping?]
          · simp [Handoff.stamps, full]
      all_goals
        simp only [toClient, dispatched, Option.some.injEq] at moved
        subst moved
        have unsent := Client.txOut_dispatchOne rfl dispatched
        refine .keeps rfl (by simp [refuses, toClient]) ?_
        simp [Handoff.stamps, toClient, unsent, List.filterMap_cons, Message.ping?]

theorem stampTurn_serverRead (moved : handoff.move env .serverRead = some next) :
    StampTurn handoff next (.inl .serverRead) := by
  simp only [Handoff.move] at moved
  cases toServer : handoff.toServer with
  | nil => simp [toServer] at moved
  | cons msg later =>
      cases msg
      case bye => simp [toServer] at moved
      case echoPong tsNs =>
        simp only [toServer, Option.some.injEq] at moved
        subst moved
        refine .answers tsNs (by simp [answered?, toServer]) rfl ?_
        simp [Handoff.stamps, toServer, Message.pong?, Server.readerTask]
      case echoPing tsNs =>
        simp only [toServer, Option.some.injEq] at moved
        subst moved
        refine .keeps (by simp [answered?, toServer]) rfl ?_
        have unchanged := Mailbox.filterMap_offer
          (show (Message.echoPong tsNs).ping? = none from rfl) handoff.serverOut
        simp [Handoff.stamps, toServer, List.filterMap_cons, Message.pong?, Server.readerTask,
          unchanged]
      all_goals
        simp only [toServer, Option.some.injEq] at moved
        subst moved
        refine .keeps (by simp [answered?, toServer]) rfl ?_
        simp [Handoff.stamps, toServer, List.filterMap_cons, Message.pong?, Server.readerTask]

theorem stampTurn (own : isForeign label = false) (stepped : handoff.step env label = some next) :
    StampTurn handoff next label := by
  cases label with
  | inr action =>
      simp only [Handoff.step] at stepped
      cases acted : Client.cursorLeaveWatcher env.client.peerAddr action handoff.watcher
          handoff.client with
      | none => simp [acted] at stepped
      | some result =>
          simp only [acted, Option.some.injEq] at stepped
          subst stepped
          refine .keeps rfl rfl ?_
          obtain ⟨watcher, client⟩ := result
          cases Client.watcherTurn acted with
          | look => rfl
          | @send exitY =>
              have unchanged := Mailbox.filterMap_offer
                (show (Message.releaseControl exitY).pong? = none from rfl) handoff.client.txOut
              simp [Handoff.stamps, unchanged]
          | clear => rfl
  | inl label =>
      simp only [Handoff.step] at stepped
      cases label with
      | source event =>
          cases stepped
          exact .keeps rfl rfl rfl
      | brain nowMs =>
          simp only [Handoff.move] at stepped
          cases received : handoff.brainQueue.recv with
          | none => simp [received] at stepped
          | some taken =>
              simp only [received, Option.some.injEq] at stepped
              subst stepped
              have silent := ping?_of_sent (handoff.brain.turn env.server taken.1 nowMs)
              refine .keeps rfl rfl ?_
              simp [Handoff.stamps, Mailbox.filterMap_offerAll silent]
      | serverSend msg =>
          obtain ⟨_, sent⟩ := Option.ite_none_right_eq_some.mp stepped
          cases sent
          have other : msg.ping? = none := by
            cases msg <;> first | rfl | cases own
          refine .keeps rfl rfl ?_
          simp [Handoff.stamps, Mailbox.filterMap_offer other]
      | serverEncode =>
          simp only [Handoff.move] at stepped
          cases received : handoff.serverOut.recv with
          | none => simp [received] at stepped
          | some taken =>
              simp only [received, Option.some.injEq] at stepped
              subst stepped
              refine .keeps rfl rfl ?_
              cases ping : taken.1.ping? <;>
                simp [Handoff.stamps, Mailbox.items_recv received, ping]
      | clientDispatch => exact stampTurn_clientDispatch stepped
      | clientSend msg =>
          obtain ⟨_, sent⟩ := Option.ite_none_right_eq_some.mp stepped
          cases sent
          have other : msg.pong? = none := by
            cases msg <;> first | rfl | cases own
          refine .keeps rfl rfl ?_
          simp [Handoff.stamps, Mailbox.filterMap_offer other]
      | clientEncode =>
          simp only [Handoff.move] at stepped
          cases received : handoff.client.txOut.recv with
          | none => simp [received] at stepped
          | some taken =>
              simp only [received, Option.some.injEq] at stepped
              subst stepped
              refine .keeps rfl rfl ?_
              cases pong : taken.1.pong? <;>
                simp [Handoff.stamps, Mailbox.items_recv received, pong]
      | serverRead => exact stampTurn_serverRead stepped

/-! ## Round trips -/

/-- What is recorded for a ping queued and a pong read at these clock readings. -/
def sampleOf (trip : Nat × Nat) : Nat :=
  min ((UInt64.ofNat trip.2).toNat - (UInt64.ofNat trip.1).toNat) Server.latencyBoundNs

/-- The pings that are back made these trips, and those under way were queued at these
clock readings. -/
structure Tracked (probe : Probe) (trips : List (Nat × Nat)) (passing : List Nat) : Prop where
  relayed : Relayed probe.queued (trips.map Prod.fst ++ passing) probe.refused
  underway : probe.handoff.stamps = passing.map UInt64.ofNat
  samples : probe.latency.hist = trips.map sampleOf
  regular : probe.latency.Regular
  queuedBefore : ∀ queued ∈ probe.queued, queued ≤ probe.clockNs
  readBefore : ∀ trip ∈ trips, trip.1 ≤ trip.2 ∧ trip.2 ≤ probe.clockNs

theorem tracked_start (env : HandoffEnv) (statusTx : Option Client.ClientStatus) :
    (start env statusTx).Tracked [] [] where
  relayed := .nothing
  underway := rfl
  samples := rfl
  regular := Server.LatencyState.regular_new
  queuedBefore := nofun
  readBefore := nofun

/-- The clock readings of a list of stamps that is split, are split likewise. -/
theorem exists_of_map_eq_append_cons {passing : List Nat} {before after : List UInt64}
    {tsNs : UInt64} (split : passing.map UInt64.ofNat = before ++ tsNs :: after) :
    ∃ first item later, passing = first ++ item :: later ∧ first.map UInt64.ofNat = before ∧
      UInt64.ofNat item = tsNs ∧ later.map UInt64.ofNat = after := by
  obtain ⟨first, rest, rfl, isBefore, isRest⟩ := List.map_eq_append_iff.mp split
  obtain ⟨item, later, rfl, isItem, isLater⟩ := List.map_eq_cons_iff.mp isRest
  exact ⟨first, item, later, rfl, isBefore, isItem, isLater⟩

variable {probe nextProbe : Probe} {trips : List (Nat × Nat)} {passing : List Nat}

theorem Tracked.tick (tracked : probe.Tracked trips passing)
    (stepped : probe.step env .tick = some nextProbe) :
    ∃ passing, nextProbe.Tracked trips passing := by
  simp only [step] at stepped
  cases accepted : probe.handoff.serverOut.trySend (.echoPing probe.elapsedNs) with
  | none =>
      simp only [accepted, Option.some.injEq] at stepped
      subst stepped
      exact ⟨passing, tracked⟩
  | some serverOut =>
      simp only [accepted, Option.some.injEq] at stepped
      subst stepped
      refine ⟨passing ++ [probe.clockNs], { tracked with
        relayed := ?_, underway := ?_, queuedBefore := ?_ }⟩
      · rw [← List.append_assoc]
        exact tracked.relayed.enter probe.clockNs
      · have underway := tracked.underway
        simp only [Handoff.stamps, ← List.append_assoc] at underway
        simp only [Handoff.stamps, Mailbox.items_trySend accepted, List.filterMap_append,
          ← List.append_assoc, underway, List.map_append]
        rfl
      · intro queued member
        rcases List.mem_append.mp member with before | here
        · exact tracked.queuedBefore queued before
        · rw [List.mem_singleton.mp here]

/-- A pong that is read ends a trip. -/
theorem Tracked.run {label : HandoffLabel ⊕ Client.WatcherAction}
    (tracked : probe.Tracked trips passing)
    (stepped : probe.step env (.run label) = some nextProbe) :
    ∃ ended passing, nextProbe.Tracked (trips ++ ended) passing ∧
      ended.map Prod.snd = (probe.pongReadAt? (.run label)).toList := by
  cases foreign : isForeign label with
  | true => simp [step, foreign] at stepped
  | false =>
      cases moved : probe.handoff.step env label with
      | none => simp [step, foreign, moved] at stepped
      | some handoff =>
          simp only [step, foreign, moved, Bool.false_eq_true, if_false,
            Option.some.injEq] at stepped
          subst stepped
          cases stampTurn foreign moved with
          | keeps unanswered accepts same =>
              simp only [unanswered, accepts, Bool.toNat_false, Nat.add_zero]
              refine ⟨[], passing, ?_, by simp [pongReadAt?, unanswered]⟩
              rw [List.append_nil]
              exact { tracked with underway := same.trans tracked.underway }
          | answers tsNs answered accepts front =>
              obtain ⟨item, later, rfl, rfl, isLater⟩ :=
                List.map_eq_cons_iff.mp (tracked.underway.symm.trans front)
              have before : item ≤ probe.clockNs :=
                tracked.queuedBefore item (tracked.relayed.inOrder.subset (by simp))
              simp only [answered, accepts, Bool.toNat_false, Nat.add_zero]
              refine ⟨[(item, probe.clockNs)], later, ⟨?_, isLater.symm, ?_,
                Server.LatencyState.regular_record tracked.regular _, tracked.queuedBefore, ?_⟩,
                by simp [pongReadAt?, answered]⟩
              · simpa using tracked.relayed
              · simp [tracked.samples, sampleOf, elapsedNs]
              · intro trip member
                rcases List.mem_append.mp member with earlier | here
                · exact tracked.readBefore trip earlier
                · rw [List.mem_singleton.mp here]
                  exact ⟨before, Nat.le_refl _⟩
          | loses before after tsNs unanswered refused had left =>
              obtain ⟨first, item, later, rfl, rfl, _, rfl⟩ :=
                exists_of_map_eq_append_cons (tracked.underway.symm.trans had)
              simp only [unanswered, refused, Bool.toNat_true]
              refine ⟨[], first ++ later, ?_, by simp [pongReadAt?, unanswered]⟩
              rw [List.append_nil]
              refine { tracked with relayed := ?_, underway := ?_ }
              · rw [← List.append_assoc]
                apply Relayed.lose
                rw [List.append_assoc]
                exact tracked.relayed
              · rw [left, List.map_append]

theorem Tracked.elapse {ns : Nat} (tracked : probe.Tracked trips passing) :
    Tracked { probe with clockNs := probe.clockNs + ns } trips passing :=
  { tracked with
    queuedBefore := fun queued member =>
      Nat.le_trans (tracked.queuedBefore queued member) (Nat.le_add_right _ ns)
    readBefore := fun trip member => ⟨(tracked.readBefore trip member).1,
      Nat.le_trans (tracked.readBefore trip member).2 (Nat.le_add_right _ ns)⟩ }

/-- Each trip ends when its pong is read. -/
theorem exists_tracked_of_exec {statusTx : Option Client.ClientStatus} {labels : List ProbeLabel}
    (run : exec (step env) (start env statusTx) labels = some probe) :
    ∃ trips passing, probe.Tracked trips passing ∧
      trips.map Prod.snd = observed (step env) pongReadAt? (start env statusTx) labels := by
  let reads (done : List ProbeLabel) : List Nat :=
    observed (step env) pongReadAt? (start env statusTx) done
  have kept : ∀ done probe label nextProbe,
      exec (step env) (start env statusTx) done = some probe →
      (∃ trips passing, Tracked probe trips passing ∧ trips.map Prod.snd = reads done) →
      step env probe label = some nextProbe →
      ∃ trips passing, Tracked nextProbe trips passing ∧
        trips.map Prod.snd = reads (done ++ [label]) := by
    rintro done probe label nextProbe reached ⟨trips, passing, tracked, readAt⟩ stepped
    have more : reads (done ++ [label]) = reads done ++ (pongReadAt? probe label).toList :=
      observed_append_one reached
    rw [more, ← readAt]
    cases label with
    | elapse ns =>
        obtain rfl := Option.some.inj stepped
        exact ⟨trips, passing, tracked.elapse, (List.append_nil _).symm⟩
    | tick =>
        obtain ⟨passing, tracked⟩ := tracked.tick stepped
        exact ⟨trips, passing, tracked, (List.append_nil _).symm⟩
    | run label =>
        obtain ⟨ended, passing, tracked, endedAt⟩ := tracked.run stepped
        exact ⟨trips ++ ended, passing, tracked, by rw [List.map_append, endedAt]⟩
  exact history_of_exec kept ⟨[], [], tracked_start env statusTx, rfl⟩ run

/-- While the clock fits into 64 bits, a sample is the time its ping and pong took. -/
theorem sampleOf_eq {trip : Nat × Nat} (ordered : trip.1 ≤ trip.2) (fits : trip.2 < 2 ^ 64) :
    sampleOf trip = min (trip.2 - trip.1) Server.latencyBoundNs := by
  have first : (UInt64.ofNat trip.1).toNat = trip.1 :=
    UInt64.toNat_ofNat_of_lt' (Nat.lt_of_le_of_lt ordered fits)
  have second : (UInt64.ofNat trip.2).toNat = trip.2 := UInt64.toNat_ofNat_of_lt' fits
  rw [sampleOf, first, second]

/-- The samples are the round trips of pings that the prober queued, in their order and each
at most once, however the tasks of both sides interleave: each trip ends when the reader
takes a pong.  No ping is lost but by a pong that the client's full channel refused, and
every thousandth sample is reported. -/
theorem samples_are_round_trips {statusTx : Option Client.ClientStatus}
    {labels : List ProbeLabel}
    (run : exec (step env) (start env statusTx) labels = some probe)
    (fits : probe.clockNs < 2 ^ 64) :
    ∃ trips : List (Nat × Nat),
      (trips.map Prod.fst).Sublist probe.queued ∧
      trips.map Prod.snd = observed (step env) pongReadAt? (start env statusTx) labels ∧
      (∀ trip ∈ trips, trip.1 ≤ trip.2 ∧ trip.2 ≤ probe.clockNs) ∧
      probe.latency.hist =
        trips.map (fun trip => min (trip.2 - trip.1) Server.latencyBoundNs) ∧
      probe.queued.length = trips.length + probe.handoff.stamps.length + probe.refused ∧
      probe.latency.reports.length = trips.length / Server.latencyProbeSamplesPerReport := by
  obtain ⟨trips, passing, tracked, reads⟩ := exists_tracked_of_exec run
  have samples : trips.map sampleOf =
      trips.map (fun trip => min (trip.2 - trip.1) Server.latencyBoundNs) := by
    apply List.map_congr_left
    intro trip member
    obtain ⟨ordered, before⟩ := tracked.readBefore trip member
    exact sampleOf_eq ordered (Nat.lt_of_le_of_lt before fits)
  refine ⟨trips, ?_, reads, tracked.readBefore, tracked.samples.trans samples, ?_, ?_⟩
  · exact (List.sublist_append_left _ passing).trans tracked.relayed.inOrder
  · have counted := tracked.relayed.counted
    rw [tracked.underway, List.length_map]
    simpa [Nat.add_assoc] using counted
  · obtain ⟨total, pending, split⟩ := tracked.regular
    rw [tracked.samples, List.length_map] at total
    rw [← total, split]
    exact (Nat.div_eq_of_lt_le (by rw [Nat.mul_comm]; exact Nat.le_add_right _ _)
      (by rw [Nat.succ_mul, Nat.mul_comm]; exact Nat.add_lt_add_left pending _)).symm

/-- Two pings, of which the first is back 250 ns after it was queued. -/
def firstPingBack : List ProbeLabel :=
  [.tick, .elapse 100, .tick, .run (.inl .serverEncode), .run (.inl .clientDispatch),
    .run (.inl .clientEncode), .elapse 150, .run (.inl .serverRead)]

theorem samples_are_round_trips_firstPingBack :
    ∃ probe, exec (step Handoff.singleClient) (start Handoff.singleClient none) firstPingBack =
        some probe ∧ probe.latency.hist = [250] ∧
      ∃ trips : List (Nat × Nat), (trips.map Prod.fst).Sublist probe.queued ∧
        trips.map Prod.snd = [250] ∧
        probe.queued.length = trips.length + probe.handoff.stamps.length + probe.refused := by
  have run : (exec (step Handoff.singleClient) (start Handoff.singleClient none)
      firstPingBack).map (fun probe => (probe.latency.hist, probe.clockNs)) =
        some ([250], 250) := by
    decide
  obtain ⟨probe, reached, outcome⟩ := Option.map_eq_some_iff.mp run
  obtain ⟨hist, clockNs⟩ := Prod.mk.inj outcome
  have fits : probe.clockNs < 2 ^ 64 := by
    rw [clockNs]
    decide
  have readAt : observed (step Handoff.singleClient) pongReadAt?
      (start Handoff.singleClient none) firstPingBack = [250] := by
    decide
  obtain ⟨trips, inOrder, reads, _, _, counted, _⟩ := samples_are_round_trips reached fits
  exact ⟨probe, reached, hist, trips, inOrder, reads.trans readAt, counted⟩

end Probe

end Kmwarp
