import Kmwarp.Foundation.Duplex
import Kmwarp.Net.PinnedPeer

/-!
# The two ends of a connection

A connection in its setup as a party of a duplex run: frames are written to and
read from reliable channels, and every other operation is answered on the spot.
-/

namespace Kmwarp.Net

open Foundation Wire Tls Pairing Interaction

variable {crypto : Crypto} {ε failure surface α β : Type}

/-- `read_frame` waits for a frame, or for the end of the connection. -/
def readService (errors : ReadErrors ε) : Service Message (Except ε Message) :=
  .receive .ok (.error errors.disconnected)

/-- `write_frame` fails only if the frame cannot be encoded. -/
def writeService (errors : ReadErrors ε) (msg : Message) :
    Service Message (Except ε Unit) :=
  match (runEncoder (encodeFrame msg) []).1 with
  | .ok () => .send msg (.ok ())
  | .error error => .reply (.error (errors.wire error))

/-- The services of a peer; `replies` says how the operations that do not concern
the connection are answered. -/
def peerServes (errors : ReadErrors ε)
    (replies : (op : PeerOp) → PeerReply crypto ε op → Prop) :
    (op : PeerOp) → Service Message (PeerReply crypto ε op) → Prop
  | .readFrame, service => service = readService errors
  | .writeFrame msg, service => service = writeService errors msg
  | op, service => ∃ reply, service = .reply reply ∧ replies op reply

def frameReceived : PeerEvent crypto ε → List Message
  | ⟨.readFrame, .ok msg⟩ => [msg]
  | _ => []

def frameSent : PeerEvent crypto ε → List Message
  | ⟨.writeFrame msg, .ok _⟩ => [msg]
  | _ => []

/-- Operations that do not concern the connection. -/
def PeerOp.Local : PeerOp → Prop
  | .readFrame | .writeFrame _ => False
  | _ => True

section Local

variable {errors : ReadErrors ε} {replies : (op : PeerOp) → PeerReply crypto ε op → Prop}
  {op : PeerOp}

theorem peerServes_iff_of_local (isLocal : op.Local)
    {service : Service Message (PeerReply crypto ε op)} :
    peerServes errors replies op service ↔
      ∃ reply, service = .reply reply ∧ replies op reply := by
  cases op
  case readFrame | writeFrame => exact isLocal.elim
  all_goals exact Iff.rfl

theorem frames_of_local (isLocal : op.Local) (reply : PeerReply crypto ε op) :
    frameReceived (⟨op, reply⟩ : PeerEvent crypto ε) = [] ∧
      frameSent (⟨op, reply⟩ : PeerEvent crypto ε) = [] := by
  cases op
  case readFrame | writeFrame => exact isLocal.elim
  all_goals exact ⟨rfl, rfl⟩

end Local

/-- Events record the frames that come and go with them. -/
theorem peerServes_records {errors : ReadErrors ε}
    {replies : (op : PeerOp) → PeerReply crypto ε op → Prop} {op : PeerOp}
    {service : Service Message (PeerReply crypto ε op)} {reply : PeerReply crypto ε op}
    {taken given : List Message} (served : peerServes errors replies op service)
    (outcome : Outcome True service reply taken given) :
    frameReceived (⟨op, reply⟩ : PeerEvent crypto ε) = taken ∧
      frameSent (⟨op, reply⟩ : PeerEvent crypto ε) = given := by
  by_cases isLocal : op.Local
  · obtain ⟨answer, rfl, _⟩ := (peerServes_iff_of_local isLocal).mp served
    cases outcome
    exact frames_of_local isLocal _
  · cases op
    case readFrame =>
      cases served
      cases outcome <;> exact ⟨rfl, rfl⟩
    case writeFrame msg =>
      cases served
      rw [writeService] at outcome
      split at outcome <;> cases outcome <;> exact ⟨rfl, rfl⟩
    all_goals exact absurd trivial isLocal

/-- A program that fails drops its connection. -/
def peerParty (errors : ReadErrors ε)
    (replies : (op : PeerOp) → PeerReply crypto ε op → Prop) (failure : Type) :
    Party Message where
  Op := PeerOp
  Reply := PeerReply crypto ε
  Result := Except failure Unit
  serves := peerServes errors replies
  hangsUp result := ∃ error, result = .error error
  received := frameReceived
  sent := frameSent
  records := peerServes_records

theorem performs_of_local {errors : ReadErrors ε}
    {replies : (op : PeerOp) → PeerReply crypto ε op → Prop} {op : PeerOp}
    {reply : PeerReply crypto ε op} (isLocal : op.Local) (allowed : replies op reply) :
    (peerParty errors replies failure).Performs ⟨op, reply⟩ := by
  obtain ⟨received, sent⟩ := frames_of_local isLocal reply
  refine ⟨.reply reply, (peerServes_iff_of_local isLocal).mpr ⟨reply, rfl, allowed⟩, ?_⟩
  change Outcome False (.reply reply) reply (frameReceived ⟨op, reply⟩)
    (frameSent ⟨op, reply⟩)
  rw [received, sent]
  exact .reply

theorem performs_readFrame {errors : ReadErrors ε}
    {replies : (op : PeerOp) → PeerReply crypto ε op → Prop} (msg : Message) :
    (peerParty errors replies failure).Performs ⟨.readFrame, .ok msg⟩ :=
  ⟨readService errors, rfl, .receive⟩

theorem performs_writeFrame {errors : ReadErrors ε}
    {replies : (op : PeerOp) → PeerReply crypto ε op → Prop} {msg : Message}
    (fits : Fits msg) :
    (peerParty errors replies failure).Performs ⟨.writeFrame msg, .ok ()⟩ := by
  refine ⟨writeService errors msg, rfl, ?_⟩
  rw [writeService, encodeFrame_of_fits fits]
  exact .send

/-- A peer whose other operations have only one answer has no choice. -/
theorem functional_peerParty {errors : ReadErrors ε}
    {replies : (op : PeerOp) → PeerReply crypto ε op → Prop}
    (unique : ∀ {op one other}, replies op one → replies op other → one = other) :
    (peerParty errors replies failure).Functional := by
  intro op one other served servedToo
  change PeerOp at op
  by_cases isLocal : op.Local
  · obtain ⟨reply, rfl, allowed⟩ := (peerServes_iff_of_local isLocal).mp served
    obtain ⟨replyToo, rfl, allowedToo⟩ := (peerServes_iff_of_local isLocal).mp servedToo
    rw [unique allowed allowedToo]
  · cases op
    case readFrame | writeFrame => exact Eq.trans served (Eq.symm servedToo)
    all_goals exact absurd trivial isLocal

theorem receives_iff {errors : ReadErrors ε}
    {replies : (op : PeerOp) → PeerReply crypto ε op → Prop} {op : PeerOp} :
    (peerParty errors replies failure).Receives op ↔ op = .readFrame := by
  constructor
  · rintro ⟨onMsg, onClosed, served⟩
    by_cases isLocal : op.Local
    · obtain ⟨reply, isReply, _⟩ := (peerServes_iff_of_local isLocal).mp served
      cases isReply
    · cases op
      case readFrame => rfl
      case writeFrame msg =>
        change Service.receive onMsg onClosed = writeService errors msg at served
        rw [writeService] at served
        split at served <;> cases served
      all_goals exact absurd trivial isLocal
  · rintro rfl
    exact ⟨.ok, .error errors.disconnected, rfl⟩

/-! ## Tallies of the pairing steps -/

/-- Frames may be read at some tallies only. -/
def readsAt (balanced : Tally → Prop) (tally : Tally) (op : PeerOp) : Prop :=
  op = .readFrame → balanced tally

section Tally

variable {errors : ReadErrors ε} {replies : (op : PeerOp) → PeerReply crypto ε op → Prop}
  {balanced : Tally → Prop} {tally : Tally}

/-- The monitor that counts frames. -/
abbrev frameTally (errors : ReadErrors ε)
    (replies : (op : PeerOp) → PeerReply crypto ε op → Prop) (balanced : Tally → Prop) :
    Monitor (PeerReply crypto ε) Tally :=
  (peerParty errors replies Unit).tally (readsAt balanced)

theorem possible_iff_of_local {op : PeerOp} (isLocal : op.Local)
    {reply : PeerReply crypto ε op} :
    (frameTally errors replies balanced).possible ⟨op, reply⟩ ↔ replies op reply := by
  constructor
  · rintro ⟨service, taken, given, served, outcome⟩
    obtain ⟨answer, rfl, allowed⟩ := (peerServes_iff_of_local isLocal).mp served
    cases outcome
    exact allowed
  · intro allowed
    exact ⟨.reply reply, [], [], (peerServes_iff_of_local isLocal).mpr ⟨reply, rfl, allowed⟩,
      .reply⟩

theorem keeps_ask {op : PeerOp} (isLocal : op.Local)
    {post : Tally → PeerReply crypto ε op → Prop}
    (holds : ∀ reply, replies op reply → post tally reply) :
    (ask op : Flow crypto ε failure _).run.Keeps (frameTally errors replies balanced)
      (OnSuccess post) tally := by
  refine ⟨?_, fun reply possible => ?_⟩
  · rintro rfl
    exact isLocal.elim
  · have counted : (frameTally errors replies balanced).advance tally ⟨op, reply⟩ = tally := by
      obtain ⟨received, sent⟩ := frames_of_local isLocal reply
      change (⟨tally.sent + (frameSent ⟨op, reply⟩).length,
        tally.received + (frameReceived ⟨op, reply⟩).length⟩ : Tally) = tally
      rw [received, sent]
      rfl
    rw [counted]
    exact holds reply ((possible_iff_of_local isLocal).mp possible)

theorem keeps_orFail {wrap : β → failure} {attempt : Except β α} {post : Tally → α → Prop}
    (holds : ∀ result, attempt = .ok result → post tally result) :
    (orFail wrap attempt : Flow crypto ε failure α).run.Keeps
      (frameTally errors replies balanced) (OnSuccess post) tally := by
  cases attempt with
  | error error => trivial
  | ok result => exact holds result rfl

theorem keeps_askWrite {msg : Message} {post : Tally → Except ε Unit → Prop}
    (sent : post ⟨tally.sent + 1, tally.received⟩ (.ok ()))
    (failed : ∀ error, post tally (.error error)) :
    (ask (.writeFrame msg) : Flow crypto ε failure _).run.Keeps
      (frameTally errors replies balanced) (OnSuccess post) tally := by
  refine ⟨nofun, fun reply _ => ?_⟩
  cases reply with
  | error error => exact failed error
  | ok => exact sent

theorem keeps_askRead {post : Tally → Except ε Message → Prop} (atRead : balanced tally)
    (received : ∀ msg, post ⟨tally.sent, tally.received + 1⟩ (.ok msg))
    (failed : ∀ error, post tally (.error error)) :
    (ask .readFrame : Flow crypto ε failure _).run.Keeps
      (frameTally errors replies balanced) (OnSuccess post) tally := by
  refine ⟨fun _ => atRead, fun reply _ => ?_⟩
  cases reply with
  | error error => exact failed error
  | ok msg => exact received msg

theorem keeps_writeFrame {msg : Message} {post : Tally → Unit → Prop}
    (holds : post ⟨tally.sent + 1, tally.received⟩ ()) :
    (writeFrame msg : Flow crypto ε (PairingFlowError ε surface) Unit).run.Keeps
      (frameTally errors replies balanced) (OnSuccess post) tally :=
  keeps_exceptBind (keeps_askWrite holds fun _ => trivial)

theorem keeps_readFrame {post : Tally → Message → Prop} (atRead : balanced tally)
    (holds : ∀ msg, post ⟨tally.sent, tally.received + 1⟩ msg) :
    (readFrame : Flow crypto ε (PairingFlowError ε surface) Message).run.Keeps
      (frameTally errors replies balanced) (OnSuccess post) tally :=
  keeps_exceptBind (keeps_askRead atRead holds fun _ => trivial)

theorem keeps_rejectAndFail {reasonCode : UInt8} {error : failure} {post : Tally → α → Prop} :
    (do sendReject reasonCode; throw error : Flow crypto ε failure α).run.Keeps
      (frameTally errors replies balanced) (OnSuccess post) tally :=
  ⟨nofun, fun _ _ => trivial⟩

theorem keeps_expectFrame {expected : String} {select : Message → Option α}
    {post : Tally → α → Prop} (atRead : balanced tally)
    (holds : ∀ result, post ⟨tally.sent, tally.received + 1⟩ result) :
    (expectFrame expected select : Flow crypto ε (PairingFlowError ε surface) α).run.Keeps
      (frameTally errors replies balanced) (OnSuccess post) tally := by
  refine keeps_exceptBind (keeps_readFrame atRead fun msg => ?_)
  split
  · exact holds _
  · trivial
  · exact keeps_rejectAndFail

theorem keeps_startSpake
    {start : List UInt8 → List UInt8 → List UInt8 → crypto.Seed →
      crypto.Spake2 × SpakeMessage} {code : String}
    {post : Tally → crypto.Spake2 × SpakeMessage → Prop}
    (holds : ∀ started, post tally started) :
    (startSpake crypto start code : Flow crypto ε (PairingFlowError ε surface) _).run.Keeps
      (frameTally errors replies balanced) (OnSuccess post) tally := by
  refine keeps_exceptBind (keeps_orFail fun _ _ => ?_)
  exact keeps_exceptBind (keeps_ask (by trivial) fun _ _ => holds _)

theorem keeps_finishOrReject {session : crypto.Spake2} {peerMsg : SpakeMessage}
    {post : Tally → SharedKey → Prop} (holds : ∀ key, post tally key) :
    (finishOrReject crypto session peerMsg :
      Flow crypto ε (PairingFlowError ε surface) SharedKey).run.Keeps
      (frameTally errors replies balanced) (OnSuccess post) tally := by
  rw [finishOrReject]
  split
  · exact holds _
  · exact keeps_rejectAndFail

/-- The certificate is sent before the peer's is read. -/
theorem keeps_exchangeCerts {certDer : List UInt8} {key : SharedKey}
    {post : Tally → List UInt8 → Prop}
    (atRead : balanced ⟨tally.sent + 1, tally.received⟩)
    (holds : ∀ peerCertDer, post ⟨tally.sent + 1, tally.received + 1⟩ peerCertDer) :
    (exchangeCerts crypto certDer key :
      Flow crypto ε (PairingFlowError ε surface) (List UInt8)).run.Keeps
      (frameTally errors replies balanced) (OnSuccess post) tally := by
  refine keeps_exceptBind (keeps_writeFrame ?_)
  refine keeps_exceptBind (keeps_expectFrame atRead fun received => ?_)
  split
  split
  · exact holds _
  · exact keeps_rejectAndFail

/-- So is the confirmation. -/
theorem keeps_pinPeerCert {peerCertDer : List UInt8} {post : Tally → Unit → Prop}
    (atRead : balanced ⟨tally.sent + 1, tally.received⟩)
    (holds : post ⟨tally.sent + 1, tally.received + 1⟩ ()) :
    (pinPeerCert crypto peerCertDer :
      Flow crypto ε (PairingFlowError ε surface) Unit).run.Keeps
      (frameTally errors replies balanced) (OnSuccess post) tally := by
  refine keeps_exceptBind (keeps_ask (by trivial) fun _ _ => ?_)
  refine keeps_exceptBind (keeps_orFail fun _ _ => ?_)
  refine keeps_exceptBind (keeps_writeFrame ?_)
  refine keeps_exceptBind (keeps_readFrame atRead fun msg => ?_)
  split
  · exact holds
  · trivial
  · trivial

end Tally

end Kmwarp.Net
