import Kmwarp.Client.CursorWatch
import Kmwarp.Handoff.Tokens
import Kmwarp.Server.Console

/-!
# The composed handoff system

The server's brain, the bounded channels on both sides, the frames in flight
in both directions, the client's injector and its cursor-leave watcher.  Every
channel drops what does not fit.
-/

namespace Kmwarp.Server

open Foundation Wire

def outboundChannelBound : Nat := 256

/-- What the other tasks of the server send: heartbeats, echoes and clipboard
chunks. -/
def isBackground : Message → Bool
  | .heartbeat _ | .echoPing _ | .echoPong _ | .clipboardText .. => true
  | _ => false

/-- How `reader_task` routes a frame to the outbound and the brain channel. -/
def readerTask (msg : Message) (txOut : Mailbox outboundChannelBound Message)
    (brainTx : Mailbox brainChannelBound BrainInput) :
    Mailbox outboundChannelBound Message × Mailbox brainChannelBound BrainInput :=
  match msg with
  | .echoPing tsNs => (txOut.offer (.echoPong tsNs), brainTx)
  | .releaseControl exitY => (txOut, brainTx.offer (.wireMessage (.releaseControl exitY)))
  | _ => (txOut, brainTx)

/-- The brain sends nothing that other tasks send. -/
theorem foreground_of_sent {env : BrainEnv} {brain next : Brain} {input : BrainInput}
    {effects : List Effect} (turn : BrainTurn env brain input next effects) :
    ∀ msg ∈ sends effects, isBackground msg = false := by
  have drained : ∀ msg ∈ drainMessages brain.held, isBackground msg = false := by
    intro msg member
    obtain ⟨hid, _, rfl⟩ := List.mem_map.mp member
    rfl
  cases turn with
  | crossing =>
      intro msg member
      simp only [sends_append, sends_cons, sends_drain, sends_nil, Effect.sent?,
        Option.toList_some, Option.toList_none, List.append_nil, List.mem_append,
        List.mem_singleton] at member
      rcases member with rfl | member
      · rfl
      · exact drained msg member
  | @forwarding event msg converted =>
      intro sent member
      obtain rfl : sent = remapKeyMessage msg env.modRemap := by
        simpa [Effect.sent?] using member
      cases event with
      | cursorAt => cases converted
      | mouseRel | mouseButton | mouseWheel | key =>
          cases converted
          rfl
  | leaving =>
      intro msg member
      simp only [sends_append, sends_cons, sends_drain, sends_nil, Effect.sent?,
        Option.toList_none, List.append_nil] at member
      exact drained msg member
  | silent =>
      intro msg member
      cases member

end Kmwarp.Server

namespace Kmwarp

open Foundation Wire

structure HandoffEnv where
  server : Server.BrainEnv
  client : Client.InjectorEnv

structure Handoff where
  brain : Server.Brain
  brainQueue : Mailbox Server.brainChannelBound Server.BrainInput
  serverOut : Mailbox Server.outboundChannelBound Message
  toClient : List Message
  client : Client.Session
  watcher : Client.WatcherPc
  toServer : List Message

/-- What happens outside the watcher. -/
inductive HandoffLabel where
  | source (event : SourceEvent)
  | brain (nowMs : Nat)
  | serverSend (msg : Message)
  | serverEncode
  | clientDispatch
  | clientSend (msg : Message)
  | clientEncode
  | serverRead
deriving DecidableEq

namespace Handoff

def start (env : HandoffEnv) (statusTx : Option Client.ClientStatus) : Handoff where
  brain := .new env.server
  brainQueue := .empty
  serverOut := .empty
  toClient := []
  client := ⟨.new {}, .empty, false, statusTx⟩
  watcher := .waiting
  toServer := []

/-- A step of a live session; a `Bye` would end it. -/
def move (env : HandoffEnv) (handoff : Handoff) : HandoffLabel → Option Handoff
  | .source event =>
      some { handoff with brainQueue := handoff.brainQueue.offer (.source event) }
  | .brain nowMs =>
      match handoff.brainQueue.recv with
      | none => none
      | some (input, brainQueue) =>
          let (brain, effects) := handoff.brain.step env.server input nowMs
          some { handoff with
            brain := brain
            brainQueue := brainQueue
            serverOut := handoff.serverOut.offerAll (Server.sends effects) }
  | .serverSend msg =>
      if Server.isBackground msg then
        some { handoff with serverOut := handoff.serverOut.offer msg }
      else none
  | .serverEncode =>
      match handoff.serverOut.recv with
      | none => none
      | some (msg, serverOut) =>
          some { handoff with
            serverOut := serverOut
            toClient := handoff.toClient ++ [msg] }
  | .clientDispatch =>
      match handoff.toClient with
      | [] | .bye _ :: _ => none
      | msg :: toClient =>
          match Client.dispatchOne env.client msg handoff.client with
          | .error _ => none
          | .ok client => some { handoff with toClient := toClient, client := client }
  | .clientSend msg =>
      if Server.isBackground msg then
        some { handoff with
          client := { handoff.client with txOut := handoff.client.txOut.offer msg } }
      else none
  | .clientEncode =>
      match handoff.client.txOut.recv with
      | none => none
      | some (msg, txOut) =>
          some { handoff with
            client := { handoff.client with txOut := txOut }
            toServer := handoff.toServer ++ [msg] }
  | .serverRead =>
      match handoff.toServer with
      | [] | .bye _ :: _ => none
      | msg :: toServer =>
          let (serverOut, brainQueue) :=
            Server.readerTask msg handoff.serverOut handoff.brainQueue
          some { handoff with
            toServer := toServer
            serverOut := serverOut
            brainQueue := brainQueue }

/-- Every load, send and store of the watcher is a step of its own. -/
def step (env : HandoffEnv) (handoff : Handoff) :
    HandoffLabel ⊕ Client.WatcherAction → Option Handoff
  | .inl label => handoff.move env label
  | .inr action =>
      match Client.cursorLeaveWatcher env.client.peerAddr action handoff.watcher
          handoff.client with
      | none => none
      | some (watcher, client) => some { handoff with watcher := watcher, client := client }

/-- A watcher tick is one step, labelled by the cursor position it polls. -/
def atomicStep (env : HandoffEnv) (handoff : Handoff) :
    HandoffLabel ⊕ Option (Int × Int) → Option Handoff
  | .inl label => handoff.move env label
  | .inr pos =>
      some { handoff with
        client := Client.cursorLeaveTick env.client.peerAddr pos handoff.client }

/-! ## Control in flight -/

def isReleaseControl : Message → Bool
  | .releaseControl _ => true
  | _ => false

def isReleaseInput : Server.BrainInput → Bool
  | .wireMessage msg => isReleaseControl msg
  | .source _ => false

/-- `TakeControl`s queued or in flight to the client. -/
def takes (handoff : Handoff) : Nat :=
  handoff.toClient.countP Client.isTakeControl +
    handoff.serverOut.items.countP Client.isTakeControl

/-- `ReleaseControl`s queued or in flight to the brain. -/
def releases (handoff : Handoff) : Nat :=
  handoff.brainQueue.items.countP isReleaseInput +
    handoff.toServer.countP isReleaseControl +
      handoff.client.txOut.items.countP isReleaseControl

def tokens (handoff : Handoff) : Tokens where
  state := handoff.brain.sm.state
  takes := handoff.takes
  active := handoff.client.active
  releases := handoff.releases

end Handoff

end Kmwarp
