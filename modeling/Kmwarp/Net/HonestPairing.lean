import Kmwarp.Net.FailedPairing
import Kmwarp.Net.Peers

/-!
# Pairing with an honest peer

The two pairing flows against each other.  Nothing goes wrong on the way, so
the outcome depends on nothing but the code that the client enters.
-/

namespace Kmwarp.Net

open Foundation Wire Tls Pairing Interaction

/-- What SPAKE2 promises for six-digit codes. -/
structure Spake2Correct (crypto : Crypto) : Prop where
  agrees : ∀ {code}, checkCode code = .ok () → ∀ seedA seedB,
    let server := crypto.startA (asBytes code) idServer idClient seedA
    let client := crypto.startB (asBytes code) idServer idClient seedB
    ∃ key, finishSpake crypto server.1 client.2 = .ok key ∧
      finishSpake crypto client.1 server.2 = .ok key
  differs : ∀ {shown typed}, checkCode shown = .ok () → checkCode typed = .ok () →
    typed ≠ shown → ∀ seedA seedB,
      let server := crypto.startA (asBytes shown) idServer idClient seedA
      let client := crypto.startB (asBytes typed) idServer idClient seedB
      ∃ serverKey clientKey, finishSpake crypto server.1 client.2 = .ok serverKey ∧
        finishSpake crypto client.1 server.2 = .ok clientKey ∧ serverKey ≠ clientKey
  elementsFit : ∀ code seed,
    Fits (.pairSpakeA (crypto.startA (asBytes code) idServer idClient seed).2) ∧
      Fits (.pairSpakeB (crypto.startB (asBytes code) idServer idClient seed).2)

/-- Tags under different keys differ. -/
def TagsDiffer (crypto : Crypto) : Prop :=
  ∀ {key other : SharedKey} certDer, key ≠ other →
    certHmac crypto key certDer ≠ certHmac crypto other certDer

section Traces

variable {crypto : Crypto} {ε failure surface : Type}

/-! ## Traces of the steps -/

theorem trace_ask (op : PeerOp) (reply : PeerReply crypto ε op) :
    Trace (ask op : Flow crypto ε failure _).run [⟨op, reply⟩] (.done (.ok reply)) := by
  apply Trace.step
  exact .here _

theorem trace_writeFrame (msg : Message) :
    Trace (writeFrame msg : Flow crypto ε (PairingFlowError ε surface) Unit).run
      [⟨.writeFrame msg, .ok ()⟩] (.done (.ok ())) := by
  apply Trace.step
  exact .here _

theorem trace_startSpake
    {start : List UInt8 → List UInt8 → List UInt8 → crypto.Seed →
      crypto.Spake2 × SpakeMessage} {code : String} (sixDigits : checkCode code = .ok ())
    (seed : crypto.Seed) :
    Trace (startSpake crypto start code : Flow crypto ε (PairingFlowError ε surface) _).run
      [⟨.spakeSeed, seed⟩] (.done (.ok (start (asBytes code) idServer idClient seed))) := by
  rw [startSpake, sixDigits]
  apply Trace.step
  exact .here _

theorem trace_finishOrReject {session : crypto.Spake2} {peerMsg : SpakeMessage}
    {key : SharedKey} (finished : finishSpake crypto session peerMsg = .ok key) :
    Trace (finishOrReject crypto session peerMsg :
      Flow crypto ε (PairingFlowError ε surface) SharedKey).run [] (.done (.ok key)) := by
  rw [finishOrReject, finished]
  exact .here _

/-- Another certificate frame than one under the shared key is rejected. -/
theorem trace_receivePeerCert_error {key : SharedKey} {certDer : List UInt8} {hmac : Bytes32}
    (differs : certHmac crypto key certDer ≠ hmac) :
    Trace (receivePeerCert crypto key :
      Flow crypto ε (PairingFlowError ε surface) (List UInt8)).run
      [⟨.readFrame, .ok (.pairCertExchange certDer hmac)⟩,
        ⟨.writeFrame (.pairRejected RejectCode.hmacMismatch), .ok ()⟩]
      (.done (.error (.pairing .hmacVerifyFailed))) := by
  apply Trace.step
  change Trace (ExceptT.run
    (if certHmacVerify (certHmac crypto key certDer) hmac then pure certDer
      else do
        sendReject RejectCode.hmacMismatch
        throw (.pairing .hmacVerifyFailed) :
      Flow crypto ε (PairingFlowError ε surface) (List UInt8))) _ _
  have refused : certHmacVerify (certHmac crypto key certDer) hmac = false :=
    decide_eq_false differs
  rw [refused]
  apply Trace.step
  exact .here _

theorem trace_receivePeerCert_ok (key : SharedKey) (certDer : List UInt8) :
    Trace (receivePeerCert crypto key :
      Flow crypto ε (PairingFlowError ε surface) (List UInt8)).run
      [⟨.readFrame, .ok (certFrame crypto key certDer)⟩] (.done (.ok certDer)) := by
  apply Trace.step
  change Trace (ExceptT.run
    (if certHmacVerify (certHmac crypto key certDer) (certHmac crypto key certDer) then
      pure certDer
    else do
      sendReject RejectCode.hmacMismatch
      throw (.pairing .hmacVerifyFailed) :
    Flow crypto ε (PairingFlowError ε surface) (List UInt8))) _ _
  have verified : certHmacVerify (certHmac crypto key certDer) (certHmac crypto key certDer) =
      true := decide_eq_true rfl
  rw [verified]
  exact .here _

theorem trace_pinPeerCert (peerCertDer : List UInt8) :
    Trace (pinPeerCert crypto peerCertDer :
      Flow crypto ε (PairingFlowError ε surface) Unit).run
      [⟨.storePin (pinHashOf crypto.sha256 peerCertDer), .ok ()⟩,
        ⟨.writeFrame .pairAccepted, .ok ()⟩, ⟨.readFrame, .ok .pairAccepted⟩]
      (.done (.ok ())) := by
  apply Trace.step
  apply Trace.step
  apply Trace.step
  exact .here _

/-- Both flows behind the same key. -/
theorem trace_pairingFlow_agreed
    {derive : Flow crypto ε (PairingFlowError ε surface) SharedKey}
    {before : List (PeerEvent crypto ε)} {key : SharedKey} (certDer peerCertDer : List UInt8)
    (derives : Trace derive.run before (.done (.ok key))) :
    Trace (derive >>= fun key => exchangeCerts crypto certDer key >>= pinPeerCert crypto).run
      (before ++ ([⟨.writeFrame (certFrame crypto key certDer), .ok ()⟩,
          ⟨.readFrame, .ok (certFrame crypto key peerCertDer)⟩] ++
        [⟨.storePin (pinHashOf crypto.sha256 peerCertDer), .ok ()⟩,
          ⟨.writeFrame .pairAccepted, .ok ()⟩, ⟨.readFrame, .ok .pairAccepted⟩]))
      (.done (.ok ())) := by
  refine derives.exceptBind (Trace.exceptBind ?_ (trace_pinPeerCert peerCertDer))
  exact (trace_writeFrame _).exceptBind (trace_receivePeerCert_ok key peerCertDer)

/-- Both flows behind different keys. -/
theorem trace_pairingFlow_refused
    {derive : Flow crypto ε (PairingFlowError ε surface) SharedKey}
    {before : List (PeerEvent crypto ε)} {key peerKey : SharedKey}
    (certDer peerCertDer : List UInt8)
    (derives : Trace derive.run before (.done (.ok key)))
    (differs : certHmac crypto key peerCertDer ≠ certHmac crypto peerKey peerCertDer) :
    Trace (derive >>= fun key => exchangeCerts crypto certDer key >>= pinPeerCert crypto).run
      (before ++ [⟨.writeFrame (certFrame crypto key certDer), .ok ()⟩,
        ⟨.readFrame, .ok (certFrame crypto peerKey peerCertDer)⟩,
        ⟨.writeFrame (.pairRejected RejectCode.hmacMismatch), .ok ()⟩])
      (.done (.error (.pairing .hmacVerifyFailed))) := by
  refine derives.exceptBind (Trace.exceptBind_error ?_)
  exact (trace_writeFrame _).exceptBind (trace_receivePeerCert_error differs)

end Traces

section Opening

variable {crypto : Crypto}

/-- A server up to its SPAKE2 element. -/
def serverOpening (crypto : Crypto) (onCode : Bool) (random : UInt64) (seed : crypto.Seed) :
    List (PeerEvent crypto Server.ServerError) :=
  [⟨.getrandom, .ok random⟩, ⟨.displayCode (formatCode random), .ok ()⟩] ++
    ((if onCode then [⟨.onCode (formatCode random), ()⟩] else []) ++
      [⟨.spakeSeed, seed⟩, ⟨.writeFrame (.pairSpakeA
        (crypto.startA (asBytes (formatCode random)) idServer idClient seed).2), .ok ()⟩])

/-- A client up to its own. -/
def clientOpening (crypto : Crypto) (typed : String) (msgA : SpakeMessage)
    (seed : crypto.Seed) : List (PeerEvent crypto Client.ClientError) :=
  [⟨.codeProvider, .ok typed⟩, ⟨.readFrame, .ok (.pairSpakeA msgA)⟩, ⟨.spakeSeed, seed⟩,
    ⟨.writeFrame (.pairSpakeB
      (crypto.startB (asBytes typed) idServer idClient seed).2), .ok ()⟩]

theorem trace_serverSharedKey (onCode : Bool) (random : UInt64) (seed : crypto.Seed)
    {msgB : SpakeMessage} {key : SharedKey}
    (finished : finishSpake crypto (crypto.startA (asBytes (formatCode random)) idServer
      idClient seed).1 msgB = .ok key) :
    Trace (Server.serverSharedKey crypto onCode).run
      (serverOpening crypto onCode random seed ++ [⟨.readFrame, .ok (.pairSpakeB msgB)⟩])
      (.done (.ok key)) := by
  have generated : Trace (Server.generateCode crypto).run [⟨.getrandom, .ok random⟩]
      (.done (.ok (formatCode random))) := by
    apply Trace.step
    exact .here _
  have published : Trace (Server.publishCode crypto onCode (formatCode random)).run
      (if onCode then [⟨.onCode (formatCode random), ()⟩] else []) (.done (.ok ())) := by
    cases onCode with
    | false => exact .here _
    | true => exact trace_ask _ _
  have received : Trace (expectFrame "expected PairSpakeB" spakeB? :
      Server.PairingFlow crypto SpakeMessage).run
        [⟨.readFrame, .ok (.pairSpakeB msgB)⟩] (.done (.ok msgB)) := by
    apply Trace.step
    exact .here _
  have split : serverOpening crypto onCode random seed ++
      [⟨.readFrame, .ok (.pairSpakeB msgB)⟩] =
        [⟨.getrandom, .ok random⟩] ++ ([⟨.displayCode (formatCode random), .ok ()⟩] ++
          ([] ++ ((if onCode then [⟨.onCode (formatCode random), ()⟩] else []) ++
            ([⟨.spakeSeed, seed⟩] ++ ([⟨.writeFrame (.pairSpakeA (crypto.startA
              (asBytes (formatCode random)) idServer idClient seed).2), .ok ()⟩] ++
                ([⟨.readFrame, .ok (.pairSpakeB msgB)⟩] ++ [])))))) := by
    simp [serverOpening]
  rw [split]
  refine generated.exceptBind ((trace_ask _ _).exceptBind (Trace.exceptBind (.here _) ?_))
  refine published.exceptBind ?_
  refine (trace_startSpake (checkCode_formatCode random) seed).exceptBind ?_
  refine (trace_writeFrame _).exceptBind (received.exceptBind ?_)
  exact trace_finishOrReject finished

theorem trace_clientSharedKey {typed : String} (sixDigits : checkCode typed = .ok ())
    (msgA : SpakeMessage) (seed : crypto.Seed) {key : SharedKey}
    (finished : finishSpake crypto (crypto.startB (asBytes typed) idServer idClient seed).1
      msgA = .ok key) :
    Trace (Client.clientSharedKey crypto).run (clientOpening crypto typed msgA seed)
      (.done (.ok key)) := by
  have received : Trace (expectFrame "expected PairSpakeA" spakeA? :
      Client.PairingFlow crypto SpakeMessage).run
        [⟨.readFrame, .ok (.pairSpakeA msgA)⟩] (.done (.ok msgA)) := by
    apply Trace.step
    exact .here _
  have split : clientOpening crypto typed msgA seed =
      [⟨.codeProvider, .ok typed⟩] ++ ([] ++ ([⟨.readFrame, .ok (.pairSpakeA msgA)⟩] ++
        ([⟨.spakeSeed, seed⟩] ++ ([⟨.writeFrame (.pairSpakeB
          (crypto.startB (asBytes typed) idServer idClient seed).2), .ok ()⟩] ++ [])))) := rfl
  rw [split]
  refine (trace_ask _ _).exceptBind (Trace.exceptBind (.here _) ?_)
  refine received.exceptBind ((trace_startSpake sixDigits seed).exceptBind ?_)
  exact (trace_writeFrame _).exceptBind (trace_finishOrReject finished)

theorem frames_serverOpening (onCode : Bool) (random : UInt64) (seed : crypto.Seed) :
    (serverOpening crypto onCode random seed).flatMap frameReceived = [] ∧
      (serverOpening crypto onCode random seed).flatMap frameSent =
        [.pairSpakeA
          (crypto.startA (asBytes (formatCode random)) idServer idClient seed).2] := by
  cases onCode <;> exact ⟨rfl, rfl⟩

end Opening

/-! ## The two flows together -/

/-- The longest certificate whose frame can be encoded. -/
def maxCertLen : Nat := 65501

theorem fits_certFrame {crypto : Crypto} {key : SharedKey} {certDer : List UInt8}
    (short : certDer.length ≤ maxCertLen) : Fits (certFrame crypto key certDer) := by
  change 2 + certDer.length + 32 ≤ maxPayloadLen
  rw [maxCertLen] at short
  rw [maxPayloadLen]
  omega

/-- Two programs that pair: their certificates, what they draw at random, and the
code that the client enters. -/
structure HonestPair (crypto : Crypto) where
  serverCert : List UInt8
  clientCert : List UInt8
  onCode : Bool
  random : UInt64
  typed : String
  serverSeed : crypto.Seed
  clientSeed : crypto.Seed
  serverCertFits : serverCert.length ≤ maxCertLen
  clientCertFits : clientCert.length ≤ maxCertLen

/-- How the operations of a flow are answered when nothing goes wrong.  It asks
for none of those before pairing, and frames are not answered here. -/
def honestAnswer {crypto : Crypto} {ε : Type} (errors : ReadErrors ε) (random : UInt64)
    (typed : String) (seed : crypto.Seed) : (op : PeerOp) → PeerReply crypto ε op
  | .setNodelay => .ok ()
  | .readPinFile => .missing
  | .buildConfig _ => .ok ()
  | .handshake _ => .ok []
  | .getrandom => .ok random
  | .displayCode _ => .ok ()
  | .onCode _ => ()
  | .codeProvider => .ok typed
  | .spakeSeed => seed
  | .readFrame => .error errors.disconnected
  | .writeFrame _ => .ok ()
  | .storePin _ => .ok ()

namespace HonestPair

variable {crypto : Crypto} (pair : HonestPair crypto)

def shown : String := formatCode pair.random

def serverSpake : crypto.Spake2 × SpakeMessage :=
  crypto.startA (asBytes pair.shown) idServer idClient pair.serverSeed

def clientSpake : crypto.Spake2 × SpakeMessage :=
  crypto.startB (asBytes pair.typed) idServer idClient pair.clientSeed

abbrev server : Party Message :=
  peerParty Server.readErrors
    (fun op reply =>
      reply = honestAnswer Server.readErrors pair.random pair.typed pair.serverSeed op)
    Server.ServerPairingError

abbrev client : Party Message :=
  peerParty Client.readErrors
    (fun op reply =>
      reply = honestAnswer Client.readErrors pair.random pair.typed pair.clientSeed op)
    Client.ClientPairingError

def start : Duplex pair.server pair.client :=
  .start (Server.runServerPairingFlow crypto pair.serverCert pair.onCode).run
    (Client.runClientPairingFlow crypto pair.clientCert).run

/-- Both flows have succeeded, and each has pinned the other's certificate. -/
def Agreed (system : Duplex pair.server pair.client) : Prop :=
  system.left.program = .done (.ok ()) ∧ system.right.program = .done (.ok ()) ∧
    ∀ file,
      pinFileAfter file system.left.events =
          .text (PinStore.contents (pinHashOf crypto.sha256 pair.clientCert)) ∧
        pinFileAfter file system.right.events =
          .text (PinStore.contents (pinHashOf crypto.sha256 pair.serverCert))

/-- Both flows have failed, and neither has tried to store a pin. -/
def Refused (system : Duplex pair.server pair.client) : Prop :=
  (∃ error, system.left.program = .done (.error error)) ∧
    (∃ error, system.right.program = .done (.error error)) ∧
      ∀ pin outcome, ⟨.storePin pin, outcome⟩ ∉ system.left.events ∧
        ⟨.storePin pin, outcome⟩ ∉ system.right.events

theorem final {goal : Duplex pair.server pair.client}
    (isGoal : pair.Agreed goal ∨ pair.Refused goal)
    (next : Duplex pair.server pair.client) : ¬ Duplex.Step goal next := by
  rcases isGoal with ⟨left, right, _⟩ | ⟨⟨_, left⟩, ⟨_, right⟩, _⟩
  · exact Duplex.not_step_of_done left right
  · exact Duplex.not_step_of_done left right

theorem diamond : Diamond (@Duplex.Step Message pair.server pair.client) := by
  apply Duplex.diamond
  · exact functional_peerParty fun one other => one.trans other.symm
  · exact functional_peerParty fun one other => one.trans other.symm

theorem performs_opening (spake : Spake2Correct crypto) :
    (∀ event ∈ serverOpening crypto pair.onCode pair.random pair.serverSeed,
      pair.server.Performs event) ∧
      ∀ msgA, ∀ event ∈ clientOpening crypto pair.typed msgA pair.clientSeed,
        pair.client.Performs event := by
  constructor
  · intro event member
    simp only [serverOpening, List.mem_append, List.mem_cons, List.not_mem_nil, or_false]
      at member
    rcases member with (rfl | rfl) | published | rfl | rfl
    · exact performs_of_local trivial rfl
    · exact performs_of_local trivial rfl
    · split at published
      · rw [List.mem_singleton.mp published]
        exact performs_of_local trivial rfl
      · cases published
    · exact performs_of_local trivial rfl
    · exact performs_writeFrame (spake.elementsFit _ _).1
  · intro msgA event member
    simp only [clientOpening, List.mem_cons, List.not_mem_nil, or_false] at member
    rcases member with rfl | rfl | rfl | rfl
    · exact performs_of_local trivial rfl
    · exact performs_readFrame _
    · exact performs_of_local trivial rfl
    · exact performs_writeFrame (spake.elementsFit _ _).2

/-- The events of a flow behind the opening. -/
def Unhindered {ε : Type} : PeerEvent crypto ε → Prop
  | ⟨.readFrame, .ok _⟩ | ⟨.storePin _, .ok _⟩ => True
  | ⟨.writeFrame msg, .ok _⟩ => Fits msg
  | _ => False

theorem performs_of_unhindered {ε failure : Type} {errors : ReadErrors ε}
    {replies : (op : PeerOp) → PeerReply crypto ε op → Prop}
    (stores : ∀ pin, replies (.storePin pin) (.ok ())) {event : PeerEvent crypto ε}
    (unhindered : Unhindered event) : (peerParty errors replies failure).Performs event := by
  obtain ⟨op, reply⟩ := event
  cases op
  case readFrame =>
    cases reply with
    | error error => exact unhindered.elim
    | ok msg => exact performs_readFrame msg
  case writeFrame msg =>
    cases reply with
    | error error => exact unhindered.elim
    | ok => exact performs_writeFrame unhindered
  case storePin pin =>
    cases reply with
    | error error => exact unhindered.elim
    | ok => exact performs_of_local trivial (stores pin)
  all_goals exact unhindered.elim

/-- The server's and the client's events up to the frame of the client's
certificate. -/
abbrev serverStart : List (PeerEvent crypto Server.ServerError) :=
  serverOpening crypto pair.onCode pair.random pair.serverSeed

abbrev clientStart (key : SharedKey) : List (PeerEvent crypto Client.ClientError) :=
  clientOpening crypto pair.typed pair.serverSpake.2 pair.clientSeed ++
    [⟨.writeFrame (certFrame crypto key pair.clientCert), .ok ()⟩]

/-- From there each side in its turn receives what the other has sent. -/
theorem reaches_of_turns (spake : Spake2Correct crypto) {key : SharedKey}
    {serverTurn last : List (PeerEvent crypto Server.ServerError)}
    {clientTurn : List (PeerEvent crypto Client.ClientError)}
    {serverResult : Except Server.ServerPairingError Unit}
    {clientResult : Except Client.ClientPairingError Unit}
    {serverUnread clientUnread : List Message}
    (serverTrace : Trace (Server.runServerPairingFlow crypto pair.serverCert pair.onCode).run
      (pair.serverStart ++ (serverTurn ++ last)) (.done serverResult))
    (clientTrace : Trace (Client.runClientPairingFlow crypto pair.clientCert).run
      (pair.clientStart key ++ clientTurn) (.done clientResult))
    (serverUnhindered : ∀ event ∈ serverTurn ++ last, Unhindered event)
    (clientUnhindered : ∀ event ∈ clientTurn, Unhindered event)
    (serverTakes : serverTurn.flatMap frameReceived =
      [.pairSpakeB pair.clientSpake.2, certFrame crypto key pair.clientCert])
    (clientTakes : clientTurn.flatMap frameReceived ++ clientUnread =
      serverTurn.flatMap frameSent)
    (lastTakes : last.flatMap frameReceived ++ serverUnread = clientTurn.flatMap frameSent)
    (quiet : last.flatMap frameSent = []) :
    Duplex.Reaches pair.start
      ⟨⟨.done serverResult, serverUnread, pair.serverStart ++ (serverTurn ++ last)⟩,
        ⟨.done clientResult, clientUnread, pair.clientStart key ++ clientTurn⟩⟩ := by
  obtain ⟨serverPerforms, clientPerforms⟩ := pair.performs_opening spake
  obtain ⟨nothingRead, elementSent⟩ :=
    frames_serverOpening pair.onCode pair.random pair.serverSeed
  refine @Duplex.reaches_in_turns Message pair.server pair.client _ _ pair.serverStart
    serverTurn last (pair.clientStart key) clientTurn _ _ _ _ serverTrace clientTrace
      ?_ ?_ nothingRead elementSent.symm serverTakes clientTakes lastTakes quiet
  · intro event member
    rcases List.mem_append.mp member with opening | later
    · exact serverPerforms event opening
    · exact performs_of_unhindered (fun _ => rfl) (serverUnhindered event later)
  · intro event member
    rcases List.mem_append.mp member with start | later
    · rcases List.mem_append.mp start with opening | sends
      · exact clientPerforms _ event opening
      · rw [List.mem_singleton.mp sends]
        exact performs_writeFrame (fits_certFrame pair.clientCertFits)
    · exact performs_of_unhindered (fun _ => rfl) (clientUnhindered event later)

/-- With the right code. -/
theorem reaches_agreed (spake : Spake2Correct crypto) (same : pair.typed = pair.shown) :
    ∃ system, Duplex.Reaches pair.start system ∧ pair.Agreed system := by
  have sixDigits : checkCode pair.typed = .ok () := by
    rw [same]
    exact checkCode_formatCode _
  have finishes : ∃ key, finishSpake crypto pair.serverSpake.1 pair.clientSpake.2 = .ok key ∧
      finishSpake crypto pair.clientSpake.1 pair.serverSpake.2 = .ok key := by
    rw [clientSpake, same]
    exact spake.agrees (checkCode_formatCode pair.random) pair.serverSeed pair.clientSeed
  obtain ⟨key, serverFinishes, clientFinishes⟩ := finishes
  have serverTrace := trace_pairingFlow_agreed pair.serverCert pair.clientCert
    (trace_serverSharedKey pair.onCode pair.random pair.serverSeed serverFinishes)
  have clientTrace := trace_pairingFlow_agreed pair.clientCert pair.serverCert
    (trace_clientSharedKey sixDigits _ pair.clientSeed clientFinishes)
  rw [List.append_assoc] at serverTrace
  let serverTurn : List (PeerEvent crypto Server.ServerError) :=
    [⟨.readFrame, .ok (.pairSpakeB pair.clientSpake.2)⟩,
      ⟨.writeFrame (certFrame crypto key pair.serverCert), .ok ()⟩,
      ⟨.readFrame, .ok (certFrame crypto key pair.clientCert)⟩,
      ⟨.storePin (pinHashOf crypto.sha256 pair.clientCert), .ok ()⟩,
      ⟨.writeFrame .pairAccepted, .ok ()⟩]
  let clientTurn : List (PeerEvent crypto Client.ClientError) :=
    [⟨.readFrame, .ok (certFrame crypto key pair.serverCert)⟩,
      ⟨.storePin (pinHashOf crypto.sha256 pair.serverCert), .ok ()⟩,
      ⟨.writeFrame .pairAccepted, .ok ()⟩, ⟨.readFrame, .ok .pairAccepted⟩]
  have acceptedFits : Fits .pairAccepted := by decide
  have run := @reaches_of_turns _ pair spake key serverTurn
    [⟨.readFrame, .ok .pairAccepted⟩] clientTurn _ _ [] [] serverTrace clientTrace
    (by simp [serverTurn, Unhindered, fits_certFrame pair.serverCertFits, acceptedFits])
    (by simp [clientTurn, Unhindered, acceptedFits]) rfl rfl rfl rfl
  refine ⟨_, run, rfl, rfl, fun file => ⟨?_, ?_⟩⟩
  · rw [pinFileAfter_append]
    rfl
  · rw [pinFileAfter_append]
    rfl

/-- With another code both sides reject the other's certificate. -/
theorem reaches_refused (spake : Spake2Correct crypto) (tags : TagsDiffer crypto)
    (sixDigits : checkCode pair.typed = .ok ()) (other : pair.typed ≠ pair.shown) :
    ∃ system, Duplex.Reaches pair.start system ∧ pair.Refused system := by
  obtain ⟨serverKey, clientKey, serverFinishes, clientFinishes, differ⟩ :=
    spake.differs (checkCode_formatCode pair.random) sixDigits other pair.serverSeed
      pair.clientSeed
  have serverTrace := trace_pairingFlow_refused pair.serverCert pair.clientCert
    (trace_serverSharedKey pair.onCode pair.random pair.serverSeed serverFinishes)
    (tags pair.clientCert differ)
  have clientTrace := trace_pairingFlow_refused pair.clientCert pair.serverCert
    (trace_clientSharedKey sixDigits _ pair.clientSeed clientFinishes)
    (tags pair.serverCert differ.symm)
  rw [List.append_assoc] at serverTrace
  let serverTurn : List (PeerEvent crypto Server.ServerError) :=
    [⟨.readFrame, .ok (.pairSpakeB pair.clientSpake.2)⟩,
      ⟨.writeFrame (certFrame crypto serverKey pair.serverCert), .ok ()⟩,
      ⟨.readFrame, .ok (certFrame crypto clientKey pair.clientCert)⟩,
      ⟨.writeFrame (.pairRejected RejectCode.hmacMismatch), .ok ()⟩]
  let clientTurn : List (PeerEvent crypto Client.ClientError) :=
    [⟨.readFrame, .ok (certFrame crypto serverKey pair.serverCert)⟩,
      ⟨.writeFrame (.pairRejected RejectCode.hmacMismatch), .ok ()⟩]
  have rejectedFits : Fits (.pairRejected RejectCode.hmacMismatch) := by decide
  have serverStores (pin : PinHash) (outcome : Except TlsError Unit) :
      (⟨.storePin pin, outcome⟩ : PeerEvent crypto Server.ServerError) ∉
        pair.serverStart ++ serverTurn := by
    cases onCode : pair.onCode <;> simp [serverStart, serverOpening, serverTurn, onCode]
  have clientStores (pin : PinHash) (outcome : Except TlsError Unit) :
      (⟨.storePin pin, outcome⟩ : PeerEvent crypto Client.ClientError) ∉
        pair.clientStart clientKey ++ clientTurn := by
    simp [clientStart, clientOpening, clientTurn]
  have run := @reaches_of_turns _ pair spake clientKey serverTurn [] clientTurn
    _ _ [.pairRejected RejectCode.hmacMismatch] [.pairRejected RejectCode.hmacMismatch]
    serverTrace clientTrace
    (by simp [serverTurn, Unhindered, fits_certFrame pair.serverCertFits, rejectedFits])
    (by simp [clientTurn, Unhindered, rejectedFits]) rfl rfl rfl rfl
  rw [List.append_nil] at run
  exact ⟨_, run, ⟨_, rfl⟩, ⟨_, rfl⟩, fun pin outcome =>
    ⟨serverStores pin outcome, clientStores pin outcome⟩⟩

end HonestPair

/-- In every interleaving, both flows succeed with each other's pin stored if the
client enters the code that the server shows, and with any other six-digit code
both fail and nothing is stored. -/
theorem honest_pairing_agrees (crypto : Crypto) (spake : Spake2Correct crypto)
    (tags : TagsDiffer crypto) (pair : HonestPair crypto) :
    (pair.typed = pair.shown → Inevitable Duplex.Step pair.Agreed pair.start) ∧
      (checkCode pair.typed = .ok () → pair.typed ≠ pair.shown →
        Inevitable Duplex.Step pair.Refused pair.start) := by
  constructor
  · intro same
    obtain ⟨system, run, agreed⟩ := pair.reaches_agreed spake same
    exact inevitable_of_run pair.diamond (fun _ goal => pair.final (.inl goal)) run agreed
  · intro sixDigits other
    obtain ⟨system, run, refused⟩ := pair.reaches_refused spake tags sixDigits other
    exact inevitable_of_run pair.diamond (fun _ goal => pair.final (.inr goal)) run refused

/-! ## An instance -/

/-- The small primitives with the key for a tag. -/
def keyTagCrypto : Crypto :=
  { mockCrypto with hmacSha256 := fun key _ => toBytes32 key }

theorem tagsDiffer_keyTagCrypto : TagsDiffer keyTagCrypto := by
  intro key other certDer differ same
  change toBytes32 key.toList = toBytes32 other.toList at same
  rw [toBytes32_toList, toBytes32_toList] at same
  exact differ same

/-- The key holds the six digits. -/
theorem asBytes_eq_of_key_eq {shown typed : String} {sum : UInt8}
    (shownDigits : checkCode shown = .ok ()) (typedDigits : checkCode typed = .ok ())
    (same : toBytes32 (asBytes shown ++ [sum]) = toBytes32 (asBytes typed ++ [sum])) :
    asBytes shown = asBytes typed := by
  have shownLength := length_of_checkCode shownDigits
  have typedLength := length_of_checkCode typedDigits
  apply List.ext_getElem (shownLength.trans typedLength.symm)
  intro index inShown inTyped
  have small : index < 32 := Nat.lt_trans (shownLength ▸ inShown) (by decide)
  have entry := congrArg (fun bytes : Bytes32 => bytes[index]) same
  simpa [toBytes32, List.getElem?_append_left inShown, List.getElem?_append_left inTyped,
    List.getElem?_eq_getElem inShown, List.getElem?_eq_getElem inTyped] using entry

theorem eq_of_asBytes_eq {shown typed : String} (same : asBytes shown = asBytes typed) :
    shown = typed := by
  have decoded := congrArg fromUtf8 same
  rw [fromUtf8_asBytes, fromUtf8_asBytes] at decoded
  exact Except.ok.inj decoded

theorem finishSpake_keyTagCrypto (code : String) (peerSide seed peerSeed : UInt8) :
    finishSpake keyTagCrypto ((peerSide, asBytes code, seed) : UInt8 × List UInt8 × UInt8)
      [peerSide, peerSeed] = .ok (toBytes32 (asBytes code ++ [seed + peerSeed])) := by
  have finished : keyTagCrypto.finish
      ((peerSide, asBytes code, seed) : UInt8 × List UInt8 × UInt8) [peerSide, peerSeed] =
        some (toBytes32 (asBytes code ++ [seed + peerSeed])).toList := if_pos rfl
  simp only [finishSpake, finished, Vector.length_toList, sharedKeyLen, if_true,
    toBytes32_toList]

theorem spake2Correct_keyTagCrypto : Spake2Correct keyTagCrypto where
  agrees := by
    intro code sixDigits (seedA : UInt8) (seedB : UInt8)
    refine ⟨toBytes32 (asBytes code ++ [seedA + seedB]),
      finishSpake_keyTagCrypto code 0x42 seedA seedB, ?_⟩
    rw [UInt8.add_comm]
    exact finishSpake_keyTagCrypto code 0x41 seedB seedA
  differs := by
    intro shown typed shownDigits typedDigits other (seedA : UInt8) (seedB : UInt8)
    refine ⟨_, _, finishSpake_keyTagCrypto shown 0x42 seedA seedB,
      finishSpake_keyTagCrypto typed 0x41 seedB seedA, ?_⟩
    rw [UInt8.add_comm seedB seedA]
    intro same
    exact other (eq_of_asBytes_eq (asBytes_eq_of_key_eq shownDigits typedDigits same)).symm
  elementsFit := by
    intro code (seed : UInt8)
    have short : 4 ≤ maxPayloadLen := by decide
    exact ⟨short, short⟩

/-- A pair that shows 123456. -/
def keyTagPair (typed : String) : HonestPair keyTagCrypto where
  serverCert := [0x30, 1]
  clientCert := [0x30, 2]
  onCode := true
  random := 123456
  typed := typed
  serverSeed := mockSeed 5
  clientSeed := mockSeed 7
  serverCertFits := by decide
  clientCertFits := by decide

/-- The right code and another one. -/
theorem honest_pairing_agrees_keyTag :
    Inevitable Duplex.Step (keyTagPair "123456").Agreed (keyTagPair "123456").start ∧
      Inevitable Duplex.Step (keyTagPair "654321").Refused (keyTagPair "654321").start := by
  constructor
  · exact (honest_pairing_agrees keyTagCrypto spake2Correct_keyTagCrypto
      tagsDiffer_keyTagCrypto (keyTagPair "123456")).1 (by decide)
  · exact (honest_pairing_agrees keyTagCrypto spake2Correct_keyTagCrypto
      tagsDiffer_keyTagCrypto (keyTagPair "654321")).2 (by decide) (by decide)

end Kmwarp.Net
