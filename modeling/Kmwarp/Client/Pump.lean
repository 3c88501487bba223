import Kmwarp.Core.Clipboard
import Kmwarp.Core.KeyTracking
import Kmwarp.Foundation.Mailbox
import Kmwarp.Net.Connection

/-!
# Client injector

The injector dispatches every decoded frame to the input sink and tracks the
keys it holds down there.  Its guard releases them when the loop is left, in
whatever way that happens.
-/

namespace Kmwarp.Client

open Foundation Wire

inductive ClientStatus where
  | idle
  | discovering
  | pairing (code : String)
  | connecting (addr : String)
  | connected (peer : String)
  | driven (peer : String)
deriving DecidableEq

def outboundChannelBound : Nat := 256

/-- The sink is the list of calls made on it, and `clipboardWrites` the texts
handed to the platform clipboard, failed writes included. -/
structure InjectorGuard where
  held : HeldKeys
  reassembler : Reassembler
  echoGuard : EchoGuard
  sink : List SinkCall
  clipboardWrites : List String

namespace InjectorGuard

def new (echoGuard : EchoGuard) : InjectorGuard where
  held := .new
  reassembler := {}
  echoGuard := echoGuard
  sink := []
  clipboardWrites := []

/-- Release every held key through the sink and forget the last remote
write. -/
def drop (guard : InjectorGuard) : InjectorGuard :=
  let guard :=
    if guard.held.isEmpty then guard
    else
      let (hids, held) := guard.held.drain
      { guard with
        held := held
        sink := guard.sink ++ hids.map fun hid => .injectKey hid .up {} }
  { guard with echoGuard := guard.echoGuard.clear }

end InjectorGuard

/-- What the injector shares with the other tasks of its session. -/
structure Session where
  guard : InjectorGuard
  txOut : Mailbox outboundChannelBound Message
  active : Bool
  statusTx : Option ClientStatus

/-- What the injector is given: the hash, the outcome of a platform clipboard
write after the earlier ones, and the peer's address. -/
structure InjectorEnv where
  sha256 : List UInt8 → Bytes32
  clipboardAccepts : List String → String → Bool
  peerAddr : String

def trackKeyInHeld (msg : Message) (held : HeldKeys) : HeldKeys :=
  held.trackKey msg

def handleClipboardText (env : InjectorEnv) (msg : Message) (guard : InjectorGuard) :
    InjectorGuard :=
  match guard.reassembler.ingest msg with
  | (.ok (some text), reassembler) =>
      let accepted := env.clipboardAccepts guard.clipboardWrites text
      let guard :=
        { guard with
          reassembler := reassembler
          clipboardWrites := guard.clipboardWrites ++ [text] }
      if accepted then
        { guard with
          echoGuard := guard.echoGuard.rememberRemoteWrite env.sha256 text }
      else guard
  | (.ok none, reassembler) | (.error _, reassembler) =>
      { guard with reassembler := reassembler }

def takeEntryInsetPx : Int := 40

/-- The text of an `unreachable!` arm that has been reached. -/
structure Unreachable where
  text : String

def dispatchOne (env : InjectorEnv) (msg : Message) (session : Session) :
    Except Unreachable Session :=
  let guard :=
    { session.guard with held := trackKeyInHeld msg session.guard.held }
  let (handled, sink) := applyMouseToSink msg guard.sink
  let guard := { guard with sink := sink }
  if handled then .ok { session with guard := guard }
  else
    let (handled, sink) := applyKeyToSink msg guard.sink
    let guard := { guard with sink := sink }
    if handled then .ok { session with guard := guard }
    else
      let session := { session with guard := guard }
      match msg with
      | .heartbeat _ => .ok session
      | .echoPing tsNs =>
          .ok { session with txOut := session.txOut.offer (.echoPong tsNs) }
      | .echoPong _ | .bye _ | .hello .. | .helloAck .. => .ok session
      | .takeControl entryY =>
          .ok { session with
            guard := { guard with
              sink := guard.sink ++ [.warpCursorAbs takeEntryInsetPx entryY.toNat] }
            active := true
            statusTx := session.statusTx.map fun _ => .driven env.peerAddr }
      | .releaseControl _ => .ok session
      | .clipboardText .. =>
          .ok { session with guard := handleClipboardText env msg guard }
      | .pairSpakeA _ | .pairSpakeB _ | .pairCertExchange .. | .pairAccepted
      | .pairRejected _ => .ok session
      | .mouseMoveRel .. | .mouseButton .. | .mouseWheel .. =>
          .error ⟨"handled by apply_mouse_to_sink"⟩
      | .keyEvent .. => .error ⟨"handled by apply_key_to_sink"⟩

/-- How the loop was left. -/
inductive LoopExit where
  | returned (result : Except ClientError Unit)
  | cancelled
  | panicked (arm : Unreachable)

/-- The source is the list of its results.  Behind the last one the loop is
cancelled while it waits for the next frame. -/
def injectorLoop (env : InjectorEnv) :
    List (Except ClientError Message) → Session → LoopExit × Session
  | [], session => (.cancelled, session)
  | .error error :: _, session => (.returned (.error error), session)
  | .ok msg :: source, session =>
      match dispatchOne env msg session with
      | .error arm => (.panicked arm, session)
      | .ok session =>
          match msg with
          | .bye _ => (.returned (.ok ()), session)
          | _ => injectorLoop env source session

/-- A finished loop: how it was left, the session then, and the guard after
its drop. -/
structure Finished where
  exit : LoopExit
  session : Session
  dropped : InjectorGuard

def injectorLoopWithSource (env : InjectorEnv)
    (source : List (Except ClientError Message))
    (echoGuard : EchoGuard) (txOut : Mailbox outboundChannelBound Message)
    (active : Bool) (statusTx : Option ClientStatus) : Finished :=
  let (exit, session) :=
    injectorLoop env source ⟨.new echoGuard, txOut, active, statusTx⟩
  ⟨exit, session, session.guard.drop⟩

/-! ## What a dispatch does -/

def isTakeControl : Message → Bool
  | .takeControl _ => true
  | _ => false

/-- The calls a frame stands for. -/
def sinkCalls (msg : Message) : List SinkCall :=
  match msg with
  | .takeControl entryY => [.warpCursorAbs takeEntryInsetPx entryY.toNat]
  | msg => (applyMouseToSink msg []).2 ++ (applyKeyToSink msg []).2

/-- What a dispatched frame does: its key is tracked and its calls are made, a completed
text is written, a `TakeControl` activates the client and an `EchoPing` is answered. -/
structure Dispatches (msg : Message) (session next : Session) : Prop where
  held : next.guard.held = trackKeyInHeld msg session.guard.held
  sink : next.guard.sink = session.guard.sink ++ sinkCalls msg
  reassembler : next.guard.reassembler = (session.guard.reassembler.ingest msg).2
  clipboardWrites : next.guard.clipboardWrites = session.guard.clipboardWrites ++
    (Reassembler.text? (session.guard.reassembler.ingest msg).1).toList
  active : next.active = (isTakeControl msg || session.active)
  txOut : next.txOut = session.txOut ∨
    ∃ tsNs, next.txOut = session.txOut.offer (.echoPong tsNs)

/-- A clipboard frame goes to the reassembler, and a completed text to the platform. -/
theorem dispatches_clipboardText (env : InjectorEnv) (chunkFlags : UInt8)
    (bytes : List UInt8) (session : Session) :
    Dispatches (.clipboardText chunkFlags bytes) session { session with
      guard := handleClipboardText env (.clipboardText chunkFlags bytes) session.guard } := by
  have guard : ∀ msg guard,
      (handleClipboardText env msg guard).held = guard.held ∧
      (handleClipboardText env msg guard).sink = guard.sink ∧
      (handleClipboardText env msg guard).reassembler = (guard.reassembler.ingest msg).2 ∧
      (handleClipboardText env msg guard).clipboardWrites = guard.clipboardWrites ++
        (Reassembler.text? (guard.reassembler.ingest msg).1).toList := by
    intro msg guard
    unfold handleClipboardText
    split
    · rename_i ingested
      rw [ingested]
      dsimp only
      split <;> exact ⟨rfl, rfl, rfl, rfl⟩
    · rename_i ingested
      rw [ingested]
      exact ⟨rfl, rfl, rfl, (List.append_nil _).symm⟩
    · rename_i ingested
      rw [ingested]
      exact ⟨rfl, rfl, rfl, (List.append_nil _).symm⟩
  obtain ⟨held, sink, reassembler, written⟩ :=
    guard (.clipboardText chunkFlags bytes) session.guard
  exact {
    held := held
    sink := sink.trans (List.append_nil _).symm
    reassembler := reassembler
    clipboardWrites := written
    active := rfl
    txOut := .inl rfl }

/-- Every frame is dispatched without reaching an `unreachable!` arm. -/
theorem dispatchOne_spec (env : InjectorEnv) (msg : Message) (session : Session) :
    ∃ next, dispatchOne env msg session = .ok next ∧ Dispatches msg session next := by
  have noText : ∀ {texts : List String}, texts = texts ++ [] := (List.append_nil _).symm
  cases msg
  case keyEvent hidUsage state modifiers =>
    cases decoded : byteToKeyState state <;>
      simp only [dispatchOne, applyMouseToSink, applyKeyToSink, decoded] <;>
      refine ⟨_, rfl, rfl, ?_, rfl, noText, rfl, .inl rfl⟩ <;>
      simp [sinkCalls, applyMouseToSink, applyKeyToSink, decoded]
  case mouseButton button state =>
    cases decodedButton : byteToMouseButton button <;>
      cases decodedState : byteToKeyState state <;>
      simp only [dispatchOne, applyMouseToSink, decodedButton, decodedState] <;>
      refine ⟨_, rfl, rfl, ?_, rfl, noText, rfl, .inl rfl⟩ <;>
      simp [sinkCalls, applyMouseToSink, applyKeyToSink, decodedButton, decodedState]
  case clipboardText chunkFlags bytes =>
    exact ⟨_, rfl, dispatches_clipboardText env chunkFlags bytes session⟩
  case echoPing tsNs =>
    refine ⟨_, rfl, rfl, ?_, rfl, noText, rfl, .inr ⟨tsNs, rfl⟩⟩
    simp [sinkCalls, applyMouseToSink, applyKeyToSink]
  all_goals
    refine ⟨_, rfl, rfl, ?_, rfl, noText, rfl, .inl rfl⟩
    simp [sinkCalls, applyMouseToSink, applyKeyToSink]

theorem dispatches_of_dispatchOne {env : InjectorEnv} {msg : Message}
    {session next : Session} (stepped : dispatchOne env msg session = .ok next) :
    Dispatches msg session next := by
  obtain ⟨other, same, dispatches⟩ := dispatchOne_spec env msg session
  rw [stepped] at same
  cases same
  exact dispatches

/-- The key calls of a frame are its key event. -/
theorem callLog_sinkCalls (msg : Message) : callLog (sinkCalls msg) = keyLog [msg] := by
  cases msg
  case takeControl entryY => rfl
  all_goals
    rw [sinkCalls, callLog_append, callLog_applyMouseToSink, callLog_applyKeyToSink]
    · rfl
    · nofun

end Kmwarp.Client
