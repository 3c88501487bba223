import Kmwarp.Foundation.Simulation
import Kmwarp.Handoff.ByteLink
import Kmwarp.Handoff.Ownership

/-!
# The handoff system over byte streams

The parties of the composed system, connected by two byte streams in place of the lists
of messages in flight.  The network cuts the streams anywhere.
-/

namespace Kmwarp

open Foundation Wire

structure WireHandoff where
  brain : Server.Brain
  brainQueue : Mailbox Server.brainChannelBound Server.BrainInput
  serverOut : Mailbox Server.outboundChannelBound Message
  toClient : ByteLink
  client : Client.Session
  watcher : Client.WatcherPc
  toServer : ByteLink

/-- A step of one of the parties, or the arrival of some bytes. -/
inductive WireLabel where
  | party (label : HandoffLabel ⊕ Client.WatcherAction)
  | clientReceives (count : Nat)
  | serverReceives (count : Nat)
deriving DecidableEq

def WireLabel.party? : WireLabel → Option (HandoffLabel ⊕ Client.WatcherAction)
  | .party label => some label
  | .clientReceives _ | .serverReceives _ => none

namespace WireHandoff

def start (env : HandoffEnv) (statusTx : Option Client.ClientStatus) : WireHandoff where
  brain := .new env.server
  brainQueue := .empty
  serverOut := .empty
  toClient := .empty
  client := ⟨.new {}, .empty, false, statusTx⟩
  watcher := .waiting
  toServer := .empty

/-- A step of a live session; a `Bye` or an error of a reader or writer would end it. -/
def move (env : HandoffEnv) (wire : WireHandoff) : HandoffLabel → Option WireHandoff
  | .source event =>
      some { wire with brainQueue := wire.brainQueue.offer (.source event) }
  | .brain nowMs =>
      match wire.brainQueue.recv with
      | none => none
      | some (input, brainQueue) =>
          let (brain, effects) := wire.brain.step env.server input nowMs
          some { wire with
            brain := brain
            brainQueue := brainQueue
            serverOut := wire.serverOut.offerAll (Server.sends effects) }
  | .serverSend msg =>
      if Server.isBackground msg then
        some { wire with serverOut := wire.serverOut.offer msg }
      else none
  | .serverEncode =>
      match wire.serverOut.recv with
      | none => none
      | some (msg, serverOut) =>
          match wire.toClient.writeFrame msg with
          | none => none
          | some toClient => some { wire with serverOut := serverOut, toClient := toClient }
  | .clientDispatch =>
      match wire.toClient.readFrame with
      | none | some (.bye _, _) => none
      | some (msg, toClient) =>
          match Client.dispatchOne env.client msg wire.client with
          | .error _ => none
          | .ok client => some { wire with toClient := toClient, client := client }
  | .clientSend msg =>
      if Server.isBackground msg then
        some { wire with
          client := { wire.client with txOut := wire.client.txOut.offer msg } }
      else none
  | .clientEncode =>
      match wire.client.txOut.recv with
      | none => none
      | some (msg, txOut) =>
          match wire.toServer.writeFrame msg with
          | none => none
          | some toServer =>
              some { wire with
                client := { wire.client with txOut := txOut }
                toServer := toServer }
  | .serverRead =>
      match wire.toServer.readFrame with
      | none | some (.bye _, _) => none
      | some (msg, toServer) =>
          let (serverOut, brainQueue) := Server.readerTask msg wire.serverOut wire.brainQueue
          some { wire with
            toServer := toServer
            serverOut := serverOut
            brainQueue := brainQueue }

def step (env : HandoffEnv) (wire : WireHandoff) : WireLabel → Option WireHandoff
  | .party (.inl label) => wire.move env label
  | .party (.inr action) =>
      match Client.cursorLeaveWatcher env.client.peerAddr action wire.watcher wire.client with
      | none => none
      | some (watcher, client) => some { wire with watcher := watcher, client := client }
  | .clientReceives count =>
      (wire.toClient.arrive count).map fun toClient => { wire with toClient := toClient }
  | .serverReceives count =>
      (wire.toServer.arrive count).map fun toServer => { wire with toServer := toServer }

/-! ## Refinement -/

/-- The same parties, with these messages in flight. -/
def withMessages (wire : WireHandoff) (toClient toServer : List Message) : Handoff where
  brain := wire.brain
  brainQueue := wire.brainQueue
  serverOut := wire.serverOut
  toClient := toClient
  client := wire.client
  watcher := wire.watcher
  toServer := toServer

/-- The bytes on the way are the frames of the messages in flight. -/
inductive Refines (wire : WireHandoff) : Handoff → Prop where
  | carried {toClient toServer : List Message}
      (client : wire.toClient.Carries toClient) (server : wire.toServer.Carries toServer) :
      Refines wire (wire.withMessages toClient toServer)

theorem refines_start (env : HandoffEnv) (statusTx : Option Client.ClientStatus) :
    (start env statusTx).Refines (.start env statusTx) :=
  .carried ByteLink.carries_empty ByteLink.carries_empty

/-- The step of a party on bytes is its step on messages. -/
theorem refines_move {env : HandoffEnv} {wire next : WireHandoff} {handoff : Handoff}
    {label : HandoffLabel} (refines : wire.Refines handoff)
    (moved : wire.move env label = some next) :
    ∃ nextHandoff, handoff.move env label = some nextHandoff ∧ next.Refines nextHandoff := by
  obtain @⟨toClient, toServer, client, server⟩ := refines
  cases label with
  | source event =>
      cases moved
      exact ⟨_, rfl, .carried client server⟩
  | brain nowMs =>
      simp only [move] at moved
      cases received : wire.brainQueue.recv with
      | none => simp [received] at moved
      | some taken =>
          simp only [received, Option.some.injEq] at moved
          subst moved
          simp only [Handoff.move, withMessages, received]
          exact ⟨_, rfl, .carried client server⟩
  | serverSend msg =>
      obtain ⟨background, sent⟩ := Option.ite_none_right_eq_some.mp moved
      cases sent
      simp only [Handoff.move, if_pos background]
      exact ⟨_, rfl, .carried client server⟩
  | serverEncode =>
      simp only [move] at moved
      cases received : wire.serverOut.recv with
      | none => simp [received] at moved
      | some taken =>
          obtain ⟨msg, serverOut⟩ := taken
          cases wrote : wire.toClient.writeFrame msg with
          | none => simp [received, wrote] at moved
          | some link =>
              simp only [received, wrote, Option.some.injEq] at moved
              subst moved
              simp only [Handoff.move, withMessages, received]
              exact ⟨_, rfl, .carried (ByteLink.carries_writeFrame client wrote) server⟩
  | clientDispatch =>
      simp only [move] at moved
      cases read : wire.toClient.readFrame with
      | none => simp [read] at moved
      | some taken =>
          obtain ⟨msg, link⟩ := taken
          obtain ⟨later, rfl, carries⟩ := ByteLink.carries_readFrame client read
          obtain ⟨session, dispatched, _⟩ := Client.dispatchOne_spec env.client msg wire.client
          cases msg
          case bye => simp [read] at moved
          all_goals
            simp only [read, dispatched, Option.some.injEq] at moved
            subst moved
            simp only [Handoff.move, withMessages, dispatched]
            exact ⟨_, rfl, .carried carries server⟩
  | clientSend msg =>
      obtain ⟨background, sent⟩ := Option.ite_none_right_eq_some.mp moved
      cases sent
      simp only [Handoff.move, if_pos background]
      exact ⟨_, rfl, .carried client server⟩
  | clientEncode =>
      simp only [move] at moved
      cases received : wire.client.txOut.recv with
      | none => simp [received] at moved
      | some taken =>
          obtain ⟨msg, txOut⟩ := taken
          cases wrote : wire.toServer.writeFrame msg with
          | none => simp [received, wrote] at moved
          | some link =>
              simp only [received, wrote, Option.some.injEq] at moved
              subst moved
              simp only [Handoff.move, withMessages, received]
              exact ⟨_, rfl, .carried client (ByteLink.carries_writeFrame server wrote)⟩
  | serverRead =>
      simp only [move] at moved
      cases read : wire.toServer.readFrame with
      | none => simp [read] at moved
      | some taken =>
          obtain ⟨msg, link⟩ := taken
          obtain ⟨later, rfl, carries⟩ := ByteLink.carries_readFrame server read
          cases msg
          case bye => simp [read] at moved
          all_goals
            simp only [read, Option.some.injEq] at moved
            subst moved
            simp only [Handoff.move, withMessages]
            exact ⟨_, rfl, .carried client carries⟩

theorem simulates_step (env : HandoffEnv) :
    Simulates (step env) (Handoff.step env) WireLabel.party? Refines := by
  intro wire label next handoff refines stepped
  cases label with
  | party label =>
      cases label with
      | inl label => exact refines_move refines stepped
      | inr action =>
          obtain @⟨toClient, toServer, client, server⟩ := refines
          simp only [step] at stepped
          cases acted : Client.cursorLeaveWatcher env.client.peerAddr action wire.watcher
              wire.client with
          | none => simp [acted] at stepped
          | some turn =>
              simp only [acted, Option.some.injEq] at stepped
              subst stepped
              simp only [WireLabel.party?, Handoff.step, withMessages, acted]
              exact ⟨_, rfl, .carried client server⟩
  | clientReceives count =>
      obtain @⟨toClient, toServer, client, server⟩ := refines
      obtain ⟨link, arrived, rfl⟩ := Option.map_eq_some_iff.mp stepped
      exact .carried (ByteLink.carries_arrive client arrived) server
  | serverReceives count =>
      obtain @⟨toClient, toServer, client, server⟩ := refines
      obtain ⟨link, arrived, rfl⟩ := Option.map_eq_some_iff.mp stepped
      exact .carried client (ByteLink.carries_arrive server arrived)

/-- Every run over byte streams, cut anywhere, is a run over lists of messages in flight:
no message is lost, duplicated, reordered or invented, and no reader meets a malformed
frame.  A message in flight can be read, or more of its bytes can arrive. -/
theorem wire_refines_messages {env : HandoffEnv} {statusTx : Option Client.ClientStatus}
    {labels : List WireLabel} {final : WireHandoff}
    (run : exec (step env) (start env statusTx) labels = some final) :
    ∃ handoff, exec (Handoff.step env) (.start env statusTx)
        (labels.filterMap WireLabel.party?) = some handoff ∧
      final.Refines handoff ∧ ¬ final.toClient.Malformed ∧ ¬ final.toServer.Malformed ∧
      (handoff.toClient ≠ [] →
        (∃ read, final.toClient.readFrame = some read) ∨
          ∃ next, final.toClient.arrive 1 = some next) ∧
      (handoff.toServer ≠ [] →
        (∃ read, final.toServer.readFrame = some read) ∨
          ∃ next, final.toServer.arrive 1 = some next) := by
  obtain ⟨handoff, ran, refines⟩ :=
    (simulates_step env).exec (refines_start env statusTx) run
  refine ⟨handoff, ran, refines, ?_⟩
  obtain @⟨toClient, toServer, client, server⟩ := refines
  refine ⟨ByteLink.not_malformed client, ByteLink.not_malformed server, ?_, ?_⟩
  · intro inFlight
    obtain ⟨msg, later, rfl⟩ := List.exists_cons_of_ne_nil inFlight
    exact (ByteLink.progress client).imp_left fun ⟨_, read⟩ => ⟨_, read⟩
  · intro inFlight
    obtain ⟨msg, later, rfl⟩ := List.exists_cons_of_ne_nil inFlight
    exact (ByteLink.progress server).imp_left fun ⟨_, read⟩ => ⟨_, read⟩

/-- The `TakeControl` of a crossing arrives in two pieces. -/
def crossOverCut : List WireLabel :=
  [.party (.inl (.source (.cursorAt 1919 300))), .party (.inl (.brain 100)),
    .party (.inl .serverEncode), .clientReceives 2, .clientReceives 3,
    .party (.inl .clientDispatch)]

theorem wire_refines_messages_crossOverCut :
    ∃ final handoff, exec (step Handoff.singleClient) (start Handoff.singleClient none)
        crossOverCut = some final ∧
      exec (Handoff.step Handoff.singleClient) (.start Handoff.singleClient none)
        ((Handoff.crossOver 100).map .inl) = some handoff ∧
      final.Refines handoff ∧ final.client.active = true := by
  have run : (exec (step Handoff.singleClient) (start Handoff.singleClient none)
      crossOverCut).map (·.client.active) = some true := by
    decide
  obtain ⟨final, reached, outcome⟩ := Option.map_eq_some_iff.mp run
  obtain ⟨handoff, ran, refines, _⟩ := wire_refines_messages reached
  exact ⟨final, handoff, reached, ran, refines, outcome⟩

end WireHandoff

end Kmwarp
