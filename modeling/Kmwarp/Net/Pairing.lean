import Kmwarp.Core.Pairing
import Kmwarp.Foundation.Interaction
import Kmwarp.Net.Connection

/-!
# Pairing steps

A connection before its session, as an interaction with the operator, the
socket and the pin store.  The two programs derive the shared key in their own
ways and then exchange certificates alike.
-/

namespace Kmwarp.Net

open Foundation Wire Tls Pairing

/-- What a connection asks of its environment before its session runs. -/
inductive PeerOp where
  | setNodelay
  | readPinFile
  | buildConfig (pinned : Option PinHash)
  | handshake (verifier : CertVerifier)
  | getrandom
  | displayCode (code : String)
  | onCode (code : String)
  | codeProvider
  | spakeSeed
  | readFrame
  | writeFrame (msg : Message)
  | storePin (pin : PinHash)
deriving DecidableEq

/-- Operations for the derivation of a key. -/
def PeerOp.Preliminary : PeerOp → Prop
  | .writeFrame (.pairSpakeA _) | .writeFrame (.pairSpakeB _)
  | .writeFrame (.pairRejected _) => True
  | .writeFrame _ | .readPinFile | .handshake _ | .storePin _ => False
  | _ => True

/-- Operations on a connection whose handshake is done. -/
def PeerOp.BehindHandshake : PeerOp → Prop
  | .setNodelay | .readPinFile | .buildConfig _ | .handshake _ => False
  | _ => True

/-- Operations that do not take part in the Hello exchange. -/
def PeerOp.BeforeHello : PeerOp → Prop
  | .writeFrame (.hello ..) | .writeFrame (.helloAck ..) => False
  | _ => True

theorem PeerOp.beforeHello_of_preliminary {op : PeerOp} (preliminary : op.Preliminary) :
    op.BeforeHello := by
  cases op with
  | writeFrame msg => cases msg <;> trivial
  | _ => trivial

/-- The reply to a handshake is the end-entity certificate the peer presented. -/
abbrev PeerReply (crypto : Crypto) (ε : Type) : PeerOp → Type
  | .setNodelay => Except IoError Unit
  | .readPinFile => PinFile
  | .buildConfig _ => Except TlsError Unit
  | .handshake _ => Except String (List UInt8)
  | .getrandom => Except String UInt64
  | .displayCode _ => Except IoError Unit
  | .onCode _ => Unit
  | .codeProvider => Except String String
  | .spakeSeed => crypto.Seed
  | .readFrame => Except ε Message
  | .writeFrame _ => Except ε Unit
  | .storePin _ => Except TlsError Unit

abbrev PeerEvent (crypto : Crypto) (ε : Type) : Type :=
  Event (PeerReply crypto ε)

/-- The pairing errors of both programs; `surface` is the one of the place the
code is shown or typed in. -/
inductive PairingFlowError (ε surface : Type) where
  | connection (error : ε)
  | pairing (error : PairingError)
  | pinStore (error : TlsError)
  | unexpectedFrame (expected : String)
  | rejected (reasonCode : UInt8)
  | surface (error : surface)

namespace RejectCode

def spake2Failure : UInt8 := 1

def hmacMismatch : UInt8 := 2

def protocolViolation : UInt8 := 5

end RejectCode

section Flow

variable {crypto : Crypto} {ε failure surface α β : Type}

/-- A program that can fail, over the operations of a connection. -/
abbrev Flow (crypto : Crypto) (ε failure α : Type) : Type :=
  ExceptT failure (Interaction (PeerReply crypto ε)) α

def ask (op : PeerOp) : Flow crypto ε failure (PeerReply crypto ε op) :=
  ExceptT.lift (Interaction.perform op)

/-- Go on with a result, or fail with its error. -/
def orFail (wrap : β → failure) : Except β α → Flow crypto ε failure α
  | .ok result => pure result
  | .error error => throw (wrap error)

def readFrame : Flow crypto ε (PairingFlowError ε surface) Message := do
  orFail .connection (← ask .readFrame)

def writeFrame (msg : Message) : Flow crypto ε (PairingFlowError ε surface) Unit := do
  orFail .connection (← ask (.writeFrame msg))

/-- A reject that cannot be sent is only logged. -/
def sendReject (reasonCode : UInt8) : Flow crypto ε failure Unit := do
  let _ ← ask (.writeFrame (.pairRejected reasonCode))

/-- Read the one kind of frame that is expected here. -/
def expectFrame (expected : String) (select : Message → Option α) :
    Flow crypto ε (PairingFlowError ε surface) α := do
  let msg ← readFrame
  match select msg, msg with
  | some result, _ => pure result
  | none, .pairRejected reasonCode => throw (.rejected reasonCode)
  | none, _ => do
      sendReject RejectCode.protocolViolation
      throw (.unexpectedFrame expected)

def spakeA? : Message → Option SpakeMessage
  | .pairSpakeA msg => some msg
  | _ => none

def spakeB? : Message → Option SpakeMessage
  | .pairSpakeB msg => some msg
  | _ => none

def certExchange? : Message → Option (List UInt8 × Bytes32)
  | .pairCertExchange certDer hmac => some (certDer, hmac)
  | _ => none

variable (crypto) in
/-- `start` of both sides: check the code, then start a SPAKE2 session. -/
def startSpake
    (start : List UInt8 → List UInt8 → List UInt8 → crypto.Seed →
      crypto.Spake2 × SpakeMessage) (code : String) :
    Flow crypto ε (PairingFlowError ε surface) (crypto.Spake2 × SpakeMessage) := do
  orFail .pairing (checkCode code)
  return start (asBytes code) idServer idClient (← ask .spakeSeed)

theorem eq_of_spakeA? {frame : Message} {msg : SpakeMessage}
    (selected : spakeA? frame = some msg) : frame = .pairSpakeA msg := by
  cases frame <;> cases selected
  rfl

theorem eq_of_spakeB? {frame : Message} {msg : SpakeMessage}
    (selected : spakeB? frame = some msg) : frame = .pairSpakeB msg := by
  cases frame <;> cases selected
  rfl

variable (crypto) in
def finishOrReject (session : crypto.Spake2) (peerMsg : SpakeMessage) :
    Flow crypto ε (PairingFlowError ε surface) SharedKey := do
  match finishSpake crypto session peerMsg with
  | .ok key => pure key
  | .error error => do
      sendReject RejectCode.spake2Failure
      throw (.pairing error)

variable (crypto) in
/-- Step 6 of both flows: receive the peer's certificate and verify its tag. -/
def receivePeerCert (sharedKey : SharedKey) :
    Flow crypto ε (PairingFlowError ε surface) (List UInt8) := do
  let (peerCertDer, peerHmac) ← expectFrame "expected PairCertExchange" certExchange?
  if certHmacVerify (certHmac crypto sharedKey peerCertDer) peerHmac then
    return peerCertDer
  else
    sendReject RejectCode.hmacMismatch
    throw (.pairing .hmacVerifyFailed)

variable (crypto) in
/-- The frame of a certificate under the shared key. -/
def certFrame (sharedKey : SharedKey) (certDer : List UInt8) : Message :=
  .pairCertExchange certDer (certHmac crypto sharedKey certDer)

variable (crypto) in
/-- Steps 5 and 6 of both flows. -/
def exchangeCerts (certDer : List UInt8) (sharedKey : SharedKey) :
    Flow crypto ε (PairingFlowError ε surface) (List UInt8) := do
  writeFrame (certFrame crypto sharedKey certDer)
  receivePeerCert crypto sharedKey

variable (crypto) in
/-- Steps 7 and 8 of both flows: pin the peer's certificate and confirm. -/
def pinPeerCert (peerCertDer : List UInt8) :
    Flow crypto ε (PairingFlowError ε surface) Unit := do
  orFail .pinStore (← ask (.storePin (pinHashOf crypto.sha256 peerCertDer)))
  writeFrame .pairAccepted
  match ← readFrame with
  | .pairAccepted => return
  | .pairRejected reasonCode => throw (.rejected reasonCode)
  | _ => throw (.unexpectedFrame "expected PairAccepted")

/-! ## What the steps can do -/

variable {events : List (PeerEvent crypto ε)}

theorem trace_ask_ok {op : PeerOp} {reply : PeerReply crypto ε op}
    (trace : Interaction.Trace (ask op : Flow crypto ε failure _).run events
      (.done (.ok reply))) : events = [⟨op, reply⟩] := by
  cases trace with
  | step later =>
      cases later
      rfl

theorem trace_orFail_ok {wrap : β → failure} {attempt : Except β α} {result : α}
    (trace : Interaction.Trace (orFail wrap attempt : Flow crypto ε failure α).run events
      (.done (.ok result))) : events = [] ∧ attempt = .ok result := by
  cases attempt with
  | error error => cases trace
  | ok value =>
      cases trace
      exact ⟨rfl, rfl⟩

theorem trace_writeFrame_ok {msg : Message}
    (trace : Interaction.Trace
      (writeFrame msg : Flow crypto ε (PairingFlowError ε surface) Unit).run events
      (.done (.ok ()))) : events = [⟨.writeFrame msg, .ok ()⟩] := by
  obtain ⟨reply, before, after, rfl, asked, checked⟩ :=
    Interaction.trace_exceptBind_ok trace
  obtain ⟨rfl, rfl⟩ := trace_orFail_ok checked
  rw [trace_ask_ok asked]
  rfl

theorem trace_readFrame_ok {msg : Message}
    (trace : Interaction.Trace
      (readFrame : Flow crypto ε (PairingFlowError ε surface) Message).run events
      (.done (.ok msg))) : events = [⟨.readFrame, .ok msg⟩] := by
  obtain ⟨reply, before, after, rfl, asked, checked⟩ :=
    Interaction.trace_exceptBind_ok trace
  obtain ⟨rfl, rfl⟩ := trace_orFail_ok checked
  rw [trace_ask_ok asked]
  rfl

theorem trace_expectFrame_ok {expected : String} {select : Message → Option α}
    {result : α}
    (trace : Interaction.Trace
      (expectFrame expected select : Flow crypto ε (PairingFlowError ε surface) α).run
      events (.done (.ok result))) :
    ∃ msg, events = [⟨.readFrame, .ok msg⟩] ∧ select msg = some result := by
  obtain ⟨msg, before, after, rfl, read, selected⟩ :=
    Interaction.trace_exceptBind_ok trace
  rw [trace_readFrame_ok read]
  cases selects : select msg with
  | some value =>
      simp only [selects] at selected
      cases selected
      exact ⟨msg, rfl, selects⟩
  | none =>
      simp only [selects] at selected
      split at selected
      · contradiction
      · cases selected
      · obtain ⟨_, _, _, _, _, thrown⟩ := Interaction.trace_exceptBind_ok selected
        cases thrown

theorem trace_startSpake_ok
    {start : List UInt8 → List UInt8 → List UInt8 → crypto.Seed →
      crypto.Spake2 × SpakeMessage} {code : String}
    {started : crypto.Spake2 × SpakeMessage}
    (trace : Interaction.Trace (startSpake crypto start code :
      Flow crypto ε (PairingFlowError ε surface) _).run events (.done (.ok started))) :
    ∃ seed, events = [⟨.spakeSeed, seed⟩] ∧
      started = start (asBytes code) idServer idClient seed := by
  obtain ⟨_, checking, _, rfl, checked, afterCheck⟩ := Interaction.trace_exceptBind_ok trace
  obtain ⟨seed, asking, _, rfl, asked, returned⟩ :=
    Interaction.trace_exceptBind_ok afterCheck
  obtain ⟨rfl, _⟩ := trace_orFail_ok checked
  cases returned
  exact ⟨seed, by rw [trace_ask_ok asked]; rfl, rfl⟩

theorem trace_finishOrReject_ok {session : crypto.Spake2} {peerMsg : SpakeMessage}
    {key : SharedKey}
    (trace : Interaction.Trace (finishOrReject crypto session peerMsg :
      Flow crypto ε (PairingFlowError ε surface) SharedKey).run events
      (.done (.ok key))) :
    events = [] ∧ finishSpake crypto session peerMsg = .ok key := by
  rw [finishOrReject] at trace
  split at trace
  · rename_i finished
    cases trace
    exact ⟨rfl, finished⟩
  · obtain ⟨_, _, _, _, _, thrown⟩ := Interaction.trace_exceptBind_ok trace
    cases thrown

/-- A reject is the only frame of a failure. -/
theorem trace_rejectAndFail {reasonCode : UInt8} {error : failure}
    {rest : Interaction (PeerReply crypto ε) (Except failure α)}
    (trace : Interaction.Trace
      (do sendReject reasonCode; throw error : Flow crypto ε failure α).run events rest) :
    (∀ result, rest ≠ .done (.ok result)) ∧
      ∀ event ∈ events, event.1 = .writeFrame (.pairRejected reasonCode) := by
  cases trace with
  | here => exact ⟨fun _ => nofun, fun _ member => absurd member List.not_mem_nil⟩
  | step later =>
      cases later
      refine ⟨fun _ => nofun, fun event member => ?_⟩
      rw [List.mem_singleton.mp member]

/-- The peer's certificate is accepted exactly when its frame carries the tag of
the shared key. -/
theorem trace_receivePeerCert {key : SharedKey}
    {rest : Interaction (PeerReply crypto ε)
      (Except (PairingFlowError ε surface) (List UInt8))}
    (trace : Interaction.Trace (receivePeerCert crypto key).run events rest) :
    (∃ peerCertDer, rest = .done (.ok peerCertDer) ∧
      events = [⟨.readFrame, .ok (certFrame crypto key peerCertDer)⟩]) ∨
      (∀ peerCertDer, rest ≠ .done (.ok peerCertDer)) ∧
        ∀ peerCertDer, ⟨.readFrame, .ok (certFrame crypto key peerCertDer)⟩ ∉ events := by
  cases trace with
  | here => exact .inr ⟨fun _ => nofun, fun _ => List.not_mem_nil⟩
  | @step _ _ read _ _ later =>
      cases read with
      | error error =>
          cases later
          exact .inr ⟨fun _ => nofun, by simp⟩
      | ok msg =>
          cases msg
          case pairCertExchange peerCertDer hmac =>
            change Interaction.Trace (ExceptT.run
              (if certHmacVerify (certHmac crypto key peerCertDer) hmac then
                pure peerCertDer
              else do
                sendReject RejectCode.hmacMismatch
                throw (.pairing .hmacVerifyFailed))) _ rest at later
            split at later
            · rename_i verified
              cases later
              rw [certHmacVerify, decide_eq_true_eq] at verified
              exact .inl ⟨peerCertDer, rfl, by rw [certFrame, verified]⟩
            · rename_i mismatch
              rw [certHmacVerify, decide_eq_true_eq] at mismatch
              obtain ⟨notDone, onlyReject⟩ := trace_rejectAndFail later
              refine .inr ⟨notDone, fun accepted member => ?_⟩
              rcases List.mem_cons.mp member with read | afterwards
              · cases read
                exact mismatch rfl
              · cases onlyReject _ afterwards
          case pairRejected reasonCode =>
            cases later
            exact .inr ⟨fun _ => nofun, by simp [certFrame]⟩
          all_goals
            obtain ⟨notDone, onlyReject⟩ := trace_rejectAndFail later
            refine .inr ⟨notDone, fun accepted member => ?_⟩
            rcases List.mem_cons.mp member with read | afterwards
            · cases read
            · cases onlyReject _ afterwards

theorem trace_exchangeCerts {certDer : List UInt8} {key : SharedKey}
    {rest : Interaction (PeerReply crypto ε)
      (Except (PairingFlowError ε surface) (List UInt8))}
    (trace : Interaction.Trace (exchangeCerts crypto certDer key).run events rest) :
    (∃ peerCertDer, rest = .done (.ok peerCertDer) ∧
      events = [⟨.writeFrame (certFrame crypto key certDer), .ok ()⟩,
        ⟨.readFrame, .ok (certFrame crypto key peerCertDer)⟩]) ∨
      (∀ peerCertDer, rest ≠ .done (.ok peerCertDer)) ∧
        ∀ peerCertDer, ⟨.readFrame, .ok (certFrame crypto key peerCertDer)⟩ ∉ events := by
  cases trace with
  | here => exact .inr ⟨fun _ => nofun, fun _ => List.not_mem_nil⟩
  | @step _ _ written _ _ later =>
      cases written with
      | error error =>
          cases later
          exact .inr ⟨fun _ => nofun, by simp⟩
      | ok =>
          rcases trace_receivePeerCert later with
            ⟨peerCertDer, same, rfl⟩ | ⟨notDone, noneVerifies⟩
          · exact .inl ⟨peerCertDer, same, rfl⟩
          · refine .inr ⟨notDone, fun peerCertDer member => noneVerifies peerCertDer ?_⟩
            simpa using member

theorem trace_pinPeerCert_ok {peerCertDer : List UInt8}
    (trace : Interaction.Trace (pinPeerCert crypto peerCertDer :
      Flow crypto ε (PairingFlowError ε surface) Unit).run events (.done (.ok ()))) :
    events = [⟨.storePin (pinHashOf crypto.sha256 peerCertDer), .ok ()⟩,
      ⟨.writeFrame .pairAccepted, .ok ()⟩, ⟨.readFrame, .ok .pairAccepted⟩] := by
  obtain ⟨stored, storing, _, rfl, asked, afterStore⟩ :=
    Interaction.trace_exceptBind_ok trace
  obtain ⟨_, checking, _, rfl, checked, afterCheck⟩ :=
    Interaction.trace_exceptBind_ok afterStore
  obtain ⟨_, writing, _, rfl, wrote, afterWrite⟩ :=
    Interaction.trace_exceptBind_ok afterCheck
  obtain ⟨msg, reading, _, rfl, read, afterRead⟩ :=
    Interaction.trace_exceptBind_ok afterWrite
  obtain ⟨rfl, rfl⟩ := trace_orFail_ok checked
  rw [trace_ask_ok asked, trace_writeFrame_ok wrote, trace_readFrame_ok read]
  split at afterRead
  · cases afterRead
    rfl
  · cases afterRead
  · cases afterRead

/-! ## What the steps can ask for -/

variable {allowed : PeerOp → Prop}

theorem within_ask {op : PeerOp} (isAllowed : allowed op) :
    (ask op : Flow crypto ε failure _).run.Within allowed :=
  ⟨isAllowed, fun _ => trivial⟩

theorem within_orFail (wrap : β → failure) (attempt : Except β α) :
    (orFail wrap attempt : Flow crypto ε failure α).run.Within allowed := by
  cases attempt <;> trivial

theorem within_readFrame (reads : allowed .readFrame) :
    (readFrame : Flow crypto ε (PairingFlowError ε surface) Message).run.Within allowed :=
  Interaction.within_exceptBind (within_ask reads) fun _ => within_orFail _ _

theorem within_writeFrame {msg : Message} (writes : allowed (.writeFrame msg)) :
    (writeFrame msg : Flow crypto ε (PairingFlowError ε surface) Unit).run.Within
      allowed :=
  Interaction.within_exceptBind (within_ask writes) fun _ => within_orFail _ _

theorem within_rejectAndFail {reasonCode : UInt8} {error : failure}
    (rejects : allowed (.writeFrame (.pairRejected reasonCode))) :
    (do sendReject reasonCode; throw error : Flow crypto ε failure α).run.Within allowed :=
  ⟨rejects, fun _ => trivial⟩

theorem within_startSpake
    {start : List UInt8 → List UInt8 → List UInt8 → crypto.Seed →
      crypto.Spake2 × SpakeMessage} {code : String} (draws : allowed .spakeSeed) :
    (startSpake crypto start code :
      Flow crypto ε (PairingFlowError ε surface) _).run.Within allowed := by
  refine Interaction.within_exceptBind (within_orFail _ _) fun _ => ?_
  exact Interaction.within_exceptBind (within_ask draws) fun _ => trivial

theorem within_expectFrame {expected : String} {select : Message → Option α}
    (reads : allowed .readFrame)
    (rejects : ∀ reasonCode, allowed (.writeFrame (.pairRejected reasonCode))) :
    (expectFrame expected select :
      Flow crypto ε (PairingFlowError ε surface) α).run.Within allowed := by
  refine Interaction.within_exceptBind (within_readFrame reads) fun msg => ?_
  split
  · trivial
  · trivial
  · exact within_rejectAndFail (rejects _)

theorem within_finishOrReject {session : crypto.Spake2} {peerMsg : SpakeMessage}
    (rejects : ∀ reasonCode, allowed (.writeFrame (.pairRejected reasonCode))) :
    (finishOrReject crypto session peerMsg :
      Flow crypto ε (PairingFlowError ε surface) SharedKey).run.Within allowed := by
  rw [finishOrReject]
  split
  · trivial
  · exact within_rejectAndFail (rejects _)

theorem within_exchangeCerts {certDer : List UInt8} {key : SharedKey}
    (writes : allowed (.writeFrame (certFrame crypto key certDer)))
    (reads : allowed .readFrame)
    (rejects : ∀ reasonCode, allowed (.writeFrame (.pairRejected reasonCode))) :
    (exchangeCerts crypto certDer key :
      Flow crypto ε (PairingFlowError ε surface) (List UInt8)).run.Within allowed := by
  refine Interaction.within_exceptBind (within_writeFrame writes) fun _ => ?_
  refine Interaction.within_exceptBind (within_expectFrame reads rejects) fun received => ?_
  split
  split
  · trivial
  · exact within_rejectAndFail (rejects _)

theorem within_pinPeerCert {peerCertDer : List UInt8}
    (stores : allowed (.storePin (pinHashOf crypto.sha256 peerCertDer)))
    (writes : allowed (.writeFrame .pairAccepted)) (reads : allowed .readFrame) :
    (pinPeerCert crypto peerCertDer :
      Flow crypto ε (PairingFlowError ε surface) Unit).run.Within allowed := by
  refine Interaction.within_exceptBind (within_ask stores) fun _ => ?_
  refine Interaction.within_exceptBind (within_orFail _ _) fun _ => ?_
  refine Interaction.within_exceptBind (within_writeFrame writes) fun _ => ?_
  refine Interaction.within_exceptBind (within_readFrame reads) fun msg => ?_
  split <;> trivial

/-- A pairing flow uses the secured connection and takes no part in the Hello
exchange. -/
theorem within_pairingFlow
    {derive : Flow crypto ε (PairingFlowError ε surface) SharedKey}
    {certDer : List UInt8} (derives : derive.run.Within allowed)
    (admits : ∀ op : PeerOp, op.BeforeHello → op.BehindHandshake → allowed op) :
    (derive >>= fun key =>
      exchangeCerts crypto certDer key >>= pinPeerCert crypto).run.Within allowed := by
  refine Interaction.within_exceptBind derives fun key => ?_
  refine Interaction.within_exceptBind ?_ fun peerCertDer => ?_
  · exact within_exchangeCerts (admits _ trivial trivial) (admits _ trivial trivial)
      fun _ => admits _ trivial trivial
  · exact within_pinPeerCert (admits _ trivial trivial) (admits _ trivial trivial)
      (admits _ trivial trivial)

end Flow

end Kmwarp.Net
