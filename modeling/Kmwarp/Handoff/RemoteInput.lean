import Kmwarp.Foundation.History
import Kmwarp.Foundation.Relay
import Kmwarp.Handoff.Wire
import Kmwarp.Net.InputPath
import Kmwarp.Server.Forwarding

/-!
# Input over the whole system

The source events are followed through the brain, the channels and the byte stream to the
calls on the client's sink, among everything else that the two sides do.
-/

namespace Kmwarp.Server

open Foundation Wire

def BrainInput.source? : BrainInput → Option SourceEvent
  | .source event => some event
  | .wireMessage _ => none

namespace Brain

/-- The brain after some iterations. -/
def after (env : BrainEnv) (brain : Brain) (labels : List BrainLabel) : Brain :=
  labels.foldl (fun brain label => (brain.step env label.input label.nowMs).1) brain

variable {env : BrainEnv} {brain : Brain}

theorem after_append_one (labels : List BrainLabel) (label : BrainLabel) :
    brain.after env (labels ++ [label]) =
      ((brain.after env labels).step env label.input label.nowMs).1 := by
  rw [after, List.foldl_append]
  rfl

theorem runLog_append_one (labels : List BrainLabel) (label : BrainLabel) :
    brain.runLog env (labels ++ [label]) =
      brain.runLog env labels ++
        (brain.after env labels).stepLog env label.input label.nowMs := by
  induction labels generalizing brain with
  | nil => simp [runLog, after]
  | cons first labels ih =>
      rw [List.cons_append, runLog, ih, runLog, List.append_assoc]
      rfl

/-- The tracker knows what is pressed by all that the brain enqueued, and holds nothing while
the Mac drives. -/
theorem tracks_after (labels : List BrainLabel) :
    ((new env).after env labels).held.Tracks
        (keyLog (Performed.enqueued ((new env).runLog env labels))) ∧
      (((new env).after env labels).sm.state = .localActive →
        ∀ hid, hid ∉ ((new env).after env labels).held) := by
  induction labels using List.reverseRecOn with
  | nil => exact ⟨HeldKeys.tracks_new, fun _ hid => HeldKeys.not_mem_new hid⟩
  | append_singleton labels label ih =>
      obtain ⟨tracks, localEmpty⟩ := ih
      rw [after_append_one, runLog_append_one, Performed.enqueued_append, keyLog_append,
        enqueued_stepLog]
      exact ⟨tracks_step tracks label.input label.nowMs,
        localEmpty_of_turn (Brain.turn env _ label.input label.nowMs) localEmpty⟩

end Brain

end Kmwarp.Server

namespace Kmwarp

open Foundation Wire

/-- What only the brain sends. -/
def Wire.Message.input? (msg : Message) : Option Message :=
  if Server.isBackground msg then none else some msg

theorem Wire.Message.input?_of_foreground {msg : Message}
    (foreground : Server.isBackground msg = false) : msg.input? = some msg := by
  rw [Message.input?, foreground]
  rfl

theorem Wire.Message.input?_of_background {msg : Message}
    (background : Server.isBackground msg = true) : msg.input? = none := by
  rw [Message.input?, background]
  rfl

theorem Wire.Message.filterMap_input? {msgs : List Message}
    (foreground : ∀ msg ∈ msgs, Server.isBackground msg = false) :
    msgs.filterMap Message.input? = msgs := by
  have all := List.filterMap_congr fun msg member =>
    Message.input?_of_foreground (foreground msg member)
  rw [all, List.filterMap_some]

/-- What other tasks send makes no calls. -/
theorem Client.sinkCalls_of_background {msg : Message}
    (background : Server.isBackground msg = true) : Client.sinkCalls msg = [] := by
  cases msg <;> first | rfl | cases background

/-- The key calls of some frames are their key events. -/
theorem Client.callLog_flatMap_sinkCalls (msgs : List Message) :
    callLog (msgs.flatMap Client.sinkCalls) = keyLog msgs := by
  induction msgs with
  | nil => rfl
  | cons msg msgs ih =>
      rw [List.flatMap_cons, callLog_append, Client.callLog_sinkCalls, ih, ← keyLog_append]
      rfl

namespace Handoff

/-- The brain's messages on their way to the client, those that arrive first in front. -/
def inputUnderway (handoff : Handoff) : List Message :=
  (handoff.toClient ++ handoff.serverOut.items).filterMap Message.input?

def source? : HandoffLabel ⊕ Client.WatcherAction → Option SourceEvent
  | .inl (.source event) => some event
  | _ => none

/-- What a step offers to the brain's channel. -/
def offered? (handoff : Handoff) :
    HandoffLabel ⊕ Client.WatcherAction → Option Server.BrainInput
  | .inl (.source event) => some (.source event)
  | .inl .serverRead =>
      match handoff.toServer with
      | .releaseControl exitY :: _ => some (.wireMessage (.releaseControl exitY))
      | _ => none
  | _ => none

/-- The iteration of the brain that a step is. -/
def taken? (handoff : Handoff) : HandoffLabel ⊕ Client.WatcherAction → Option Server.BrainLabel
  | .inl (.brain nowMs) => handoff.brainQueue.recv.map fun (input, _) => ⟨input, nowMs, []⟩
  | _ => none

/-- The brain's channel takes what is offered to it. -/
def hasQueueRoom (handoff : Handoff) (label : HandoffLabel ⊕ Client.WatcherAction) : Bool :=
  (handoff.offered? label).all fun _ =>
    handoff.brainQueue.items.length < Server.brainChannelBound

/-- The outbound channel takes all that the brain sends. -/
def hasOutboundRoom (env : HandoffEnv) (handoff : Handoff)
    (label : HandoffLabel ⊕ Client.WatcherAction) : Bool :=
  (handoff.taken? label).all fun taken =>
    handoff.serverOut.items.length +
        (Server.sends (handoff.brain.step env.server taken.input taken.nowMs).2).length ≤
      Server.outboundChannelBound

/-- Where the input of a run has got: this was offered to the brain and the brain has taken
these inputs, the client has dispatched these messages, and so many were refused by the two
channels in between. -/
structure Follows (env : HandoffEnv) (handoff : Handoff) (offered : List Server.BrainInput)
    (taken : List Server.BrainLabel) (dispatched : List Message) (lostIn lostOut : Nat) :
    Prop where
  brain : handoff.brain = (Server.Brain.new env.server).after env.server taken
  arrived : Relayed offered
    (taken.map Server.BrainLabel.input ++ handoff.brainQueue.items) lostIn
  sent : Relayed
    (Server.Performed.enqueued ((Server.Brain.new env.server).runLog env.server taken))
    (dispatched ++ handoff.inputUnderway) lostOut
  sink : handoff.client.guard.sink = dispatched.flatMap Client.sinkCalls
  held : handoff.client.guard.held.Tracks (callLog handoff.client.guard.sink)

variable {env : HandoffEnv} {handoff next : Handoff} {offered : List Server.BrainInput}
  {taken : List Server.BrainLabel} {dispatched : List Message} {lostIn lostOut : Nat}
  {label : HandoffLabel ⊕ Client.WatcherAction}

theorem follows_start (env : HandoffEnv) (statusTx : Option Client.ClientStatus) :
    (start env statusTx).Follows env [] [] [] 0 0 where
  brain := rfl
  arrived := .nothing
  sent := .nothing
  sink := rfl
  held := HeldKeys.tracks_new

/-- The run goes on with a step, without a loss in a channel that has room. -/
def FollowsOn (env : HandoffEnv) (handoff next : Handoff)
    (label : HandoffLabel ⊕ Client.WatcherAction) (offered : List Server.BrainInput)
    (taken : List Server.BrainLabel) (lostIn lostOut : Nat) : Prop :=
  ∃ dispatched moreIn moreOut,
    next.Follows env (offered ++ (handoff.offered? label).toList)
        (taken ++ (handoff.taken? label).toList) dispatched (lostIn + moreIn)
        (lostOut + moreOut) ∧
      (handoff.hasQueueRoom label = true → moreIn = 0) ∧
      (handoff.hasOutboundRoom env label = true → moreOut = 0)

/-- The step leaves what is behind the brain's channel where it is. -/
structure KeepsSent (handoff next : Handoff) : Prop where
  brain : next.brain = handoff.brain
  underway : next.inputUnderway = handoff.inputUnderway
  guard : next.client.guard = handoff.client.guard

theorem Follows.keep (follows : handoff.Follows env offered taken dispatched lostIn lostOut)
    (keeps : handoff.KeepsSent next) (silent : handoff.offered? label = none)
    (idle : handoff.taken? label = none)
    (queued : next.brainQueue.items = handoff.brainQueue.items) :
    FollowsOn env handoff next label offered taken lostIn lostOut := by
  obtain ⟨brain, underway, guard⟩ := keeps
  refine ⟨dispatched, 0, 0, ?_, fun _ => rfl, fun _ => rfl⟩
  rw [silent, idle, Option.toList_none, Option.toList_none, List.append_nil, List.append_nil]
  exact {
    brain := brain.trans follows.brain
    arrived := queued ▸ follows.arrived
    sent := underway ▸ follows.sent
    sink := by rw [guard, follows.sink]
    held := by
      rw [guard]
      exact follows.held }

/-- An input is offered to the brain, whose channel takes it or is full. -/
theorem Follows.offer {input : Server.BrainInput}
    (follows : handoff.Follows env offered taken dispatched lostIn lostOut)
    (keeps : handoff.KeepsSent next) (offers : handoff.offered? label = some input)
    (idle : handoff.taken? label = none)
    (queued : next.brainQueue = handoff.brainQueue.offer input) :
    FollowsOn env handoff next label offered taken lostIn lostOut := by
  obtain ⟨brain, underway, guard⟩ := keeps
  have onward (moreIn : Nat) (arrived : Relayed (offered ++ [input])
      (taken.map Server.BrainLabel.input ++ next.brainQueue.items) (lostIn + moreIn)) :
      next.Follows env (offered ++ (handoff.offered? label).toList)
        (taken ++ (handoff.taken? label).toList) dispatched (lostIn + moreIn)
        (lostOut + 0) := by
    rw [offers, idle, Option.toList_some, Option.toList_none, List.append_nil]
    exact {
      brain := brain.trans follows.brain
      arrived := arrived
      sent := underway ▸ follows.sent
      sink := by rw [guard, follows.sink]
      held := by
        rw [guard]
        exact follows.held }
  by_cases room : handoff.brainQueue.items.length < Server.brainChannelBound
  · refine ⟨dispatched, 0, 0, onward 0 ?_, fun _ => rfl, fun _ => rfl⟩
    rw [queued, Mailbox.items_offer_of_room room, ← List.append_assoc]
    exact follows.arrived.enter input
  · refine ⟨dispatched, 1, 0, onward 1 ?_, fun fits => ?_, fun _ => rfl⟩
    · rw [queued, Mailbox.offer, Mailbox.trySend_of_full room, Option.getD_none]
      have refused := follows.arrived.enterSome (List.nil_sublist [input])
      rwa [List.append_nil] at refused
    · simp only [hasQueueRoom, offers, Option.all_some] at fits
      exact absurd (of_decide_eq_true fits) room

theorem Follows.brain_step {nowMs : Nat}
    (follows : handoff.Follows env offered taken dispatched lostIn lostOut)
    (moved : handoff.move env (.brain nowMs) = some next) :
    FollowsOn env handoff next (.inl (.brain nowMs)) offered taken lostIn lostOut := by
  simp only [move] at moved
  cases received : handoff.brainQueue.recv with
  | none => simp [received] at moved
  | some result =>
      obtain ⟨input, brainQueue⟩ := result
      simp only [received, Option.some.injEq] at moved
      subst moved
      let iteration : Server.BrainLabel := ⟨input, nowMs, []⟩
      have takes : handoff.taken? (.inl (.brain nowMs)) = some iteration := by
        simp only [taken?, received, Option.map_some, iteration]
      have foreground :=
        Server.foreground_of_sent (handoff.brain.turn env.server input nowMs)
      obtain ⟨kept, inOrder, queued, all⟩ := Mailbox.exists_items_offerAll
        (Server.sends (handoff.brain.step env.server input nowMs).2) handoff.serverOut
      have keptInput : kept.filterMap Message.input? = kept :=
        Message.filterMap_input? fun msg member => foreground msg (inOrder.subset member)
      let refused :=
        (Server.sends (handoff.brain.step env.server input nowMs).2).length - kept.length
      refine ⟨dispatched, 0, refused, ?_, fun _ => rfl, fun fits => ?_⟩
      · rw [takes, Option.toList_some]
        refine {
          brain := ?_, arrived := ?_, sent := ?_
          sink := follows.sink, held := follows.held }
        · rw [Server.Brain.after_append_one, ← follows.brain]
        · have arrived := follows.arrived
          rw [Mailbox.items_recv received] at arrived
          simpa [offered?, iteration] using arrived
        · rw [Server.Brain.runLog_append_one, Server.Performed.enqueued_append,
            ← follows.brain, Server.Brain.enqueued_stepLog]
          have entered := follows.sent.enterSome inOrder
          simpa [inputUnderway, queued, keptInput] using entered
      · have room := of_decide_eq_true (by simpa [hasOutboundRoom, takes] using fits)
        simp only [refused, all room, Nat.sub_self]

theorem Follows.clientDispatch
    (follows : handoff.Follows env offered taken dispatched lostIn lostOut)
    (moved : handoff.move env .clientDispatch = some next) :
    FollowsOn env handoff next (.inl .clientDispatch) offered taken lostIn lostOut := by
  simp only [move] at moved
  split at moved
  · cases moved
  · cases moved
  · rename_i msg later _ inFlight
    obtain ⟨client, called, dispatches⟩ :=
      Client.dispatchOne_spec env.client msg handoff.client
    simp only [called, Option.some.injEq] at moved
    subst moved
    have held : client.guard.held.Tracks (callLog client.guard.sink) := by
      rw [dispatches.held, dispatches.sink, callLog_append, Client.callLog_sinkCalls]
      exact HeldKeys.tracks_trackKey follows.held msg
    have sink := dispatches.sink
    have sent := follows.sent
    rw [follows.sink] at sink
    rw [inputUnderway, inFlight] at sent
    refine ⟨dispatched ++ msg.input?.toList, 0, 0, ?_, fun _ => rfl, fun _ => rfl⟩
    simp only [offered?, taken?, Option.toList_none, List.append_nil]
    refine {
      brain := follows.brain, arrived := follows.arrived
      sent := ?_, sink := ?_, held := held }
    · cases selected : msg.input? <;> simpa [inputUnderway, selected] using sent
    · cases background : Server.isBackground msg with
      | true =>
          rw [sink, Client.sinkCalls_of_background background,
            Message.input?_of_background background]
          simp
      | false =>
          rw [sink, Message.input?_of_foreground background]
          simp

theorem Follows.serverRead
    (follows : handoff.Follows env offered taken dispatched lostIn lostOut)
    (moved : handoff.move env .serverRead = some next) :
    FollowsOn env handoff next (.inl .serverRead) offered taken lostIn lostOut := by
  simp only [move] at moved
  split at moved
  · cases moved
  · cases moved
  · rename_i msg later _ inFlight
    simp only [Option.some.injEq] at moved
    subst moved
    cases msg
    case releaseControl exitY =>
      exact follows.offer ⟨rfl, rfl, rfl⟩ (by simp only [offered?, inFlight]) rfl rfl
    case echoPing tsNs _ =>
      have unchanged := Mailbox.filterMap_offer
        (show (Message.echoPong tsNs).input? = none from rfl) handoff.serverOut
      refine follows.keep ⟨rfl, ?_, rfl⟩ (by simp only [offered?, inFlight]) rfl rfl
      simp [inputUnderway, Server.readerTask, unchanged]
    all_goals
      exact follows.keep ⟨rfl, rfl, rfl⟩ (by simp only [offered?, inFlight]) rfl rfl

/-- Whatever a step does, the input is followed on. -/
theorem Follows.step (follows : handoff.Follows env offered taken dispatched lostIn lostOut)
    (stepped : handoff.step env label = some next) :
    FollowsOn env handoff next label offered taken lostIn lostOut := by
  cases label with
  | inr action =>
      simp only [Handoff.step] at stepped
      cases acted : Client.cursorLeaveWatcher env.client.peerAddr action handoff.watcher
          handoff.client with
      | none => simp [acted] at stepped
      | some result =>
          obtain ⟨watcher, client⟩ := result
          simp only [acted, Option.some.injEq] at stepped
          subst stepped
          refine follows.keep ⟨rfl, rfl, ?_⟩ rfl rfl rfl
          cases Client.watcherTurn acted <;> rfl
  | inl label =>
      simp only [Handoff.step] at stepped
      cases label with
      | source event =>
          cases stepped
          exact follows.offer ⟨rfl, rfl, rfl⟩ rfl rfl rfl
      | brain nowMs => exact follows.brain_step stepped
      | clientDispatch => exact follows.clientDispatch stepped
      | serverRead => exact follows.serverRead stepped
      | serverSend msg =>
          obtain ⟨background, sent⟩ := Option.ite_none_right_eq_some.mp stepped
          cases sent
          have unchanged := Mailbox.filterMap_offer
            (Message.input?_of_background background) handoff.serverOut
          refine follows.keep ⟨rfl, ?_, rfl⟩ rfl rfl rfl
          simp [inputUnderway, unchanged]
      | serverEncode =>
          simp only [move] at stepped
          cases received : handoff.serverOut.recv with
          | none => simp [received] at stepped
          | some result =>
              simp only [received, Option.some.injEq] at stepped
              subst stepped
              refine follows.keep ⟨rfl, ?_, rfl⟩ rfl rfl rfl
              simp [inputUnderway, Mailbox.items_recv received]
      | clientSend msg =>
          obtain ⟨_, sent⟩ := Option.ite_none_right_eq_some.mp stepped
          cases sent
          exact follows.keep ⟨rfl, rfl, rfl⟩ rfl rfl rfl
      | clientEncode =>
          simp only [move] at stepped
          cases received : handoff.client.txOut.recv with
          | none => simp [received] at stepped
          | some result =>
              simp only [received, Option.some.injEq] at stepped
              subst stepped
              exact follows.keep ⟨rfl, rfl, rfl⟩ rfl rfl rfl

end Handoff

/-! ## Over the byte streams -/

namespace WireHandoff

def source? (label : WireLabel) : Option SourceEvent :=
  label.party?.bind Handoff.source?

/-- What a step offers to the brain's channel. -/
def offered? (wire : WireHandoff) : WireLabel → Option Server.BrainInput
  | .party (.inl (.source event)) => some (.source event)
  | .party (.inl .serverRead) =>
      match wire.toServer.readFrame with
      | some (.releaseControl exitY, _) => some (.wireMessage (.releaseControl exitY))
      | _ => none
  | _ => none

/-- The iteration of the brain that a step is. -/
def taken? (wire : WireHandoff) : WireLabel → Option Server.BrainLabel
  | .party (.inl (.brain nowMs)) =>
      wire.brainQueue.recv.map fun (input, _) => ⟨input, nowMs, []⟩
  | _ => none

/-- The brain's channel takes what is offered to it. -/
def hasQueueRoom (wire : WireHandoff) (label : WireLabel) : Bool :=
  (wire.offered? label).all fun _ => wire.brainQueue.items.length < Server.brainChannelBound

/-- The outbound channel takes all that the brain sends. -/
def hasOutboundRoom (env : HandoffEnv) (wire : WireHandoff) (label : WireLabel) : Bool :=
  (wire.taken? label).all fun taken =>
    wire.serverOut.items.length +
        (Server.sends (wire.brain.step env.server taken.input taken.nowMs).2).length ≤
      Server.outboundChannelBound

variable {env : HandoffEnv} {statusTx : Option Client.ClientStatus}

/-- A step of a party offers and takes on bytes what it does on messages. -/
theorem offered?_of_refines {wire next : WireHandoff} {handoff : Handoff}
    {party : HandoffLabel ⊕ Client.WatcherAction} (refines : wire.Refines handoff)
    (stepped : step env wire (.party party) = some next) :
    handoff.offered? party = wire.offered? (.party party) := by
  obtain @⟨toClient, toServer, _, server⟩ := refines
  cases party with
  | inr action => rfl
  | inl label =>
      cases label with
      | serverRead =>
          simp only [step, move] at stepped
          cases read : wire.toServer.readFrame with
          | none => simp [read] at stepped
          | some taken =>
              obtain ⟨msg, link⟩ := taken
              obtain ⟨later, rfl, _⟩ := ByteLink.carries_readFrame server read
              simp only [Handoff.offered?, offered?, withMessages, read]
              cases msg <;> rfl
      | _ => rfl

theorem taken?_of_refines {wire : WireHandoff} {handoff : Handoff}
    (refines : wire.Refines handoff) (party : HandoffLabel ⊕ Client.WatcherAction) :
    handoff.taken? party = wire.taken? (.party party) := by
  cases refines
  cases party with
  | inl label => cases label <;> rfl
  | inr action => rfl

theorem hasQueueRoom_of_refines {wire next : WireHandoff} {handoff : Handoff}
    {party : HandoffLabel ⊕ Client.WatcherAction} (refines : wire.Refines handoff)
    (stepped : step env wire (.party party) = some next) :
    handoff.hasQueueRoom party = wire.hasQueueRoom (.party party) := by
  rw [Handoff.hasQueueRoom, hasQueueRoom, offered?_of_refines refines stepped]
  cases refines
  rfl

theorem hasOutboundRoom_of_refines {wire : WireHandoff} {handoff : Handoff}
    (refines : wire.Refines handoff) (party : HandoffLabel ⊕ Client.WatcherAction) :
    handoff.hasOutboundRoom env party = wire.hasOutboundRoom env (.party party) := by
  rw [Handoff.hasOutboundRoom, hasOutboundRoom, taken?_of_refines refines]
  cases refines
  rfl

/-- After a run over the byte streams the input is followed, and none of it has been lost in
a channel that always had room for it. -/
def Followed (env : HandoffEnv) (statusTx : Option Client.ClientStatus)
    (labels : List WireLabel) (wire : WireHandoff) : Prop :=
  ∃ handoff, wire.Refines handoff ∧
    ∃ dispatched lostIn lostOut,
      handoff.Follows env (observed (step env) offered? (start env statusTx) labels)
        (observed (step env) taken? (start env statusTx) labels) dispatched lostIn lostOut ∧
      (Along (step env) (fun wire label => wire.hasQueueRoom label = true)
        (start env statusTx) labels → lostIn = 0) ∧
      (Along (step env) (fun wire label => wire.hasOutboundRoom env label = true)
        (start env statusTx) labels → lostOut = 0)

theorem followed_step {labels : List WireLabel} {wire next : WireHandoff} {label : WireLabel}
    (run : exec (step env) (start env statusTx) labels = some wire)
    (followed : Followed env statusTx labels wire) (stepped : step env wire label = some next) :
    Followed env statusTx (labels ++ [label]) next := by
  obtain ⟨handoff, refines, dispatched, lostIn, lostOut, follows, noneIn, noneOut⟩ := followed
  have matched := simulates_step env wire label next handoff refines stepped
  rw [Followed, observed_append_one run, observed_append_one run]
  cases label with
  | clientReceives | serverReceives =>
      refine ⟨handoff, matched, dispatched, lostIn, lostOut, ?_, fun along => ?_,
        fun along => ?_⟩
      · simpa only [offered?, taken?, Option.toList_none, List.append_nil] using follows
      · exact noneIn ((along_append_one run).mp along).1
      · exact noneOut ((along_append_one run).mp along).1
  | party party =>
      obtain ⟨nextHandoff, moved, nextRefines⟩ := matched
      obtain ⟨dispatched, moreIn, moreOut, later, noMoreIn, noMoreOut⟩ := follows.step moved
      rw [offered?_of_refines refines stepped, taken?_of_refines refines] at later
      rw [hasQueueRoom_of_refines refines stepped] at noMoreIn
      rw [hasOutboundRoom_of_refines refines] at noMoreOut
      refine ⟨nextHandoff, nextRefines, dispatched, lostIn + moreIn, lostOut + moreOut, later,
        fun along => ?_, fun along => ?_⟩
      · obtain ⟨before, here⟩ := (along_append_one run).mp along
        rw [noneIn before, noMoreIn (here next stepped)]
      · obtain ⟨before, here⟩ := (along_append_one run).mp along
        rw [noneOut before, noMoreOut (here next stepped)]

theorem followed_of_exec {labels : List WireLabel} {final : WireHandoff}
    (run : exec (step env) (start env statusTx) labels = some final) :
    Followed env statusTx labels final := by
  have preserved : ∀ done wire label next,
      exec (step env) (start env statusTx) done = some wire →
      Followed env statusTx done wire → step env wire label = some next →
      Followed env statusTx (done ++ [label]) next :=
    fun _ _ _ _ => followed_step
  exact history_of_exec preserved ⟨_, refines_start env statusTx, [], 0, 0,
    Handoff.follows_start env statusTx, fun _ => rfl, fun _ => rfl⟩ run

theorem source?_of_offered? (wire : WireHandoff) (label : WireLabel) :
    (wire.offered? label).bind Server.BrainInput.source? = source? label := by
  cases label with
  | clientReceives | serverReceives => rfl
  | party party =>
      cases party with
      | inr action => rfl
      | inl label =>
          cases label with
          | serverRead =>
              simp only [offered?]
              split <;> rfl
          | _ => rfl

/-- Events that convert make the calls they stand for. -/
theorem sinkCalls_forwarded (events : List SourceEvent) (remap : ModRemap) :
    (events.filterMap fun event => sourceEventToMessageRemapped event remap).flatMap
        Client.sinkCalls =
      events.filterMap remap.sinkCall? := by
  induction events with
  | nil => rfl
  | cons event events ih =>
      cases converted : sourceEventToMessageRemapped event remap with
      | none =>
          have silent : remap.sinkCall? event = none := by
            cases event with
            | cursorAt x y => rfl
            | mouseRel | mouseButton | mouseWheel | key => cases converted
          rw [List.filterMap_cons, converted, List.filterMap_cons_none silent]
          exact ih
      | some msg =>
          have called := sinkCalls_converted converted
          rw [List.filterMap_cons, converted, List.flatMap_cons, ih, called]
          cases call : remap.sinkCall? event <;> simp [call]

/-- What the client's sink has been asked for, in every run over byte streams that are cut
anywhere and among everything else the two sides do: a part, in order, of the calls of what
the brain enqueued for the inputs it took, and these with what waits for the brain are a part,
in order, of what was offered to it: of the source events and of the `ReleaseControl`s that
the reader got.  The calls of the forwarded messages are those that the events stand for,
and the other messages are control messages and drained releases.  Only the two full channels
lose anything. -/
theorem remote_input_reaches_sink {labels : List WireLabel} {final : WireHandoff}
    (run : exec (step env) (start env statusTx) labels = some final) :
    let brain := Server.Brain.new env.server
    let offered := observed (step env) offered? (start env statusTx) labels
    let taken := observed (step env) taken? (start env statusTx) labels
    let log := brain.runLog env.server taken
    let arrived := taken.map Server.BrainLabel.input ++ final.brainQueue.items
    ∃ dispatched inFlight : List Message,
      let sent := dispatched ++ (inFlight ++ final.serverOut.items).filterMap Message.input?
      final.toClient.Carries inFlight ∧
      final.client.guard.sink = dispatched.flatMap Client.sinkCalls ∧
      final.brain = brain.after env.server taken ∧
      offered.filterMap Server.BrainInput.source? = labels.filterMap source? ∧
      arrived.Sublist offered ∧
      sent.Sublist (Server.Performed.enqueued log) ∧
      (Server.Performed.forwarded log).flatMap Client.sinkCalls =
        (brain.remoteEvents env.server taken).filterMap env.server.modRemap.sinkCall? ∧
      (∀ entry ∈ log, entry.isForward = false → ∀ msg ∈ entry.msgs,
        Server.Synthesized msg) ∧
      (Along (step env) (fun wire label => wire.hasQueueRoom label = true)
          (start env statusTx) labels → arrived = offered) ∧
      (Along (step env) (fun wire label => wire.hasOutboundRoom env label = true)
          (start env statusTx) labels → sent = Server.Performed.enqueued log) := by
  intro brain offered taken log arrived
  obtain ⟨handoff, refines, dispatched, lostIn, lostOut, follows, noneIn, noneOut⟩ :=
    followed_of_exec run
  obtain @⟨toClient, toServer, client, server⟩ := refines
  obtain ⟨forwarded, others⟩ := brain.forwarded_runLog env.server taken
  refine ⟨dispatched, toClient, client, follows.sink, follows.brain,
    filterMap_observed source?_of_offered? run,
    follows.arrived.inOrder, follows.sent.inOrder, ?_, others, fun along => ?_,
    fun along => ?_⟩
  · rw [forwarded, sinkCalls_forwarded]
  · obtain rfl := noneIn along
    exact follows.arrived.eq_of_lossless
  · obtain rfl := noneOut along
    exact follows.sent.eq_of_lossless

/-- A crossing and a press of Cmd, read by the client in pieces. -/
def pressedRemotely : List WireLabel :=
  [.party (.inl (.source (.cursorAt 1919 300))), .party (.inl (.brain 100)),
    .party (.inl (.source (.key Usage.leftGui .down {}))), .party (.inl .serverEncode),
    .clientReceives 2, .party (.inl (.brain 110)), .party (.inl .serverEncode),
    .clientReceives 8, .party (.inl .clientDispatch), .clientReceives 2,
    .party (.inl .clientDispatch)]

theorem remote_input_reaches_sink_pressedRemotely :
    ∃ final, exec (step Handoff.singleClient) (start Handoff.singleClient none)
        pressedRemotely = some final ∧
      final.client.guard.sink =
        [.warpCursorAbs 40 300, .injectKey Usage.leftCtrl .down {}] ∧
      (observed (step Handoff.singleClient) taken? (start Handoff.singleClient none)
          pressedRemotely).map Server.BrainLabel.input ++ final.brainQueue.items =
        [.source (.cursorAt 1919 300), .source (.key Usage.leftGui .down {})] := by
  have run : (exec (step Handoff.singleClient) (start Handoff.singleClient none)
      pressedRemotely).map (·.client.guard.sink) =
        some [.warpCursorAbs 40 300, .injectKey Usage.leftCtrl .down {}] := by
    decide
  obtain ⟨final, reached, sink⟩ := Option.map_eq_some_iff.mp run
  obtain ⟨_, _, _, _, _, _, _, _, _, _, lossless, _⟩ := remote_input_reaches_sink reached
  exact ⟨final, reached, sink, (lossless (by decide)).trans rfl⟩

/-- The trackers of the two sides agree up to what is on its way.  Once nothing is, they hold
the same keys, and none after control has come back. -/
theorem trackers_agree {labels : List WireLabel} {final : WireHandoff}
    (run : exec (step env) (start env statusTx) labels = some final)
    (room : Along (step env) (fun wire label => wire.hasOutboundRoom env label = true)
      (start env statusTx) labels) :
    ∃ inFlight, final.toClient.Carries inFlight ∧
      let underway := (inFlight ++ final.serverOut.items).filterMap Message.input?
      (∀ hid, hid ∈ final.brain.held ↔
        Pressed (callLog final.client.guard.sink ++ keyLog underway) hid) ∧
      (underway = [] →
        (∀ hid, hid ∈ final.client.guard.held ↔ hid ∈ final.brain.held) ∧
        (final.brain.sm.state = .localActive →
          ∀ hid, ¬ Pressed (callLog final.client.guard.sink) hid)) := by
  let taken := observed (step env) taken? (start env statusTx) labels
  obtain ⟨handoff, refines, dispatched, lostIn, lostOut, follows, _, noneOut⟩ :=
    followed_of_exec run
  obtain rfl := noneOut room
  obtain @⟨toClient, toServer, client, server⟩ := refines
  obtain ⟨tracks, localEmpty⟩ := Server.Brain.tracks_after taken
  have pressed : keyLog (Server.Performed.enqueued
      ((Server.Brain.new env.server).runLog env.server taken)) =
        callLog final.client.guard.sink ++
          keyLog ((toClient ++ final.serverOut.items).filterMap Message.input?) := by
    have sink : final.client.guard.sink = dispatched.flatMap Client.sinkCalls := follows.sink
    rw [← follows.sent.eq_of_lossless, keyLog_append, sink, Client.callLog_flatMap_sinkCalls]
    rfl
  have brain : final.brain = (Server.Brain.new env.server).after env.server taken :=
    follows.brain
  rw [pressed, ← brain] at tracks
  rw [← brain] at localEmpty
  refine ⟨toClient, client, tracks, fun quiet => ?_⟩
  have shown : final.brain.held.Tracks (callLog final.client.guard.sink) := by
    simpa [quiet] using tracks
  refine ⟨fun hid => (follows.held hid).trans (shown hid).symm, fun isLocal hid pressed => ?_⟩
  exact localEmpty isLocal hid ((shown hid).mpr pressed)

theorem trackers_agree_pressedRemotely :
    ∃ final, exec (step Handoff.singleClient) (start Handoff.singleClient none)
        pressedRemotely = some final ∧
      Usage.leftCtrl ∈ final.brain.held ∧
      ∃ inFlight, final.toClient.Carries inFlight ∧
        ∀ hid, hid ∈ final.brain.held ↔
          Pressed (callLog final.client.guard.sink ++
            keyLog ((inFlight ++ final.serverOut.items).filterMap Message.input?)) hid := by
  have run : (exec (step Handoff.singleClient) (start Handoff.singleClient none)
      pressedRemotely).map (fun final => decide (Usage.leftCtrl ∈ final.brain.held)) =
        some true := by
    decide
  obtain ⟨final, reached, isHeld⟩ := Option.map_eq_some_iff.mp run
  obtain ⟨inFlight, carries, agree, _⟩ := trackers_agree reached (by decide)
  exact ⟨final, reached, of_decide_eq_true isHeld, inFlight, carries, agree⟩

end WireHandoff

end Kmwarp
