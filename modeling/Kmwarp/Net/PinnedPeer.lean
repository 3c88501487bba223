import Kmwarp.Client.Pairing
import Kmwarp.Net.SecureConnection
import Kmwarp.Server.Pairing

/-!
# The peer of a session

Where the two programs go on to the Hello exchange, the pin store holds the pin
of the peer they are connected to, except after a pairing with another
certificate.
-/

namespace Kmwarp.Server

open Foundation Wire Tls Pairing Net Interaction

variable (crypto : Crypto) (certDer : List UInt8)

/-- `handle_peer` before the Hello exchange. -/
def secureConnection : Flow crypto ServerError (SessionEnd ServerError) Unit :=
  Net.secureConnection .io (runServerPairingFlow crypto certDer true)

/-- `handle_peer` up to its task graph. -/
def handlePeer (screenPx : UInt16 × UInt16) :
    Flow crypto ServerError (SessionEnd ServerError) Unit := do
  secureConnection crypto certDer
  match ← orFail .failed (← ask .readFrame) with
  | .hello _ _ => orFail .failed (← ask (.writeFrame (.helloAck true screenPx)))
  | _ => throw .closed

variable {crypto certDer}

theorem pairsInOrder {pairing : List (PeerEvent crypto ServerError)}
    (trace : Trace (runServerPairingFlow crypto certDer true).run pairing
      (.done (.ok ()))) : PairsInOrder pairing := by
  refine trace_pairingFlow_ok (fun key before derived => ?_) trace
  obtain ⟨random, seed, msgB, rfl, _⟩ := trace_serverSharedKey_ok derived
  simp [WithoutCert]

end Kmwarp.Server

namespace Kmwarp.Client

open Foundation Wire Tls Pairing Net Interaction

variable (crypto : Crypto) (certDer : List UInt8)

/-- `run_one_session` before the Hello exchange. -/
def secureConnection : Flow crypto ClientError (SessionEnd ClientError) Unit :=
  Net.secureConnection .io (runClientPairingFlow crypto certDer)

/-- `run_one_session` up to its task graph. -/
def runOneSession (peerName : String) :
    Flow crypto ClientError (SessionEnd ClientError) Unit := do
  secureConnection crypto certDer
  orFail .failed (← ask (.writeFrame (.hello protoVersion peerName)))
  match ← orFail .failed (← ask .readFrame) with
  | .helloAck accepted _ =>
      if accepted then pure () else throw (.failed .handshakeRejected)
  | _ => throw (.failed .unexpectedHandshakeFrame)

variable {crypto certDer}

theorem pairsInOrder {pairing : List (PeerEvent crypto ClientError)}
    (trace : Trace (runClientPairingFlow crypto certDer).run pairing
      (.done (.ok ()))) : PairsInOrder pairing := by
  refine trace_pairingFlow_ok (fun key before derived => ?_) trace
  obtain ⟨code, msgA, seed, rfl, _⟩ := trace_clientSharedKey_ok derived
  simp [WithoutCert]

end Kmwarp.Client

namespace Kmwarp.Net

open Foundation Wire Tls Pairing Interaction

/-- In every run of `session`, this holds when the connection has just been
secured and the program goes on to the Hello exchange. -/
def AtHello {crypto : Crypto} {ε : Type}
    (session secure : Flow crypto ε (SessionEnd ε) Unit)
    (holds : PinFile → PeerTimeline crypto ε → Prop) : Prop :=
  ∀ file (timeline : PeerTimeline crypto ε) rest,
    Trace session.run timeline.own rest → timeline.Consistent pinAccess file →
      Verified timeline.own → ∀ before, before <+: timeline →
        Trace secure.run (Timeline.own before) (.done (.ok ())) → holds file before

/-- The pin store then holds the pin of the peer at the other end exactly if the
peer has paired as presented. -/
theorem peerPinned_iff_pairsAsPresented (crypto : Crypto) (certDer : List UInt8) :
    (∀ screenPx, AtHello (Server.handlePeer crypto certDer screenPx)
      (Server.secureConnection crypto certDer) fun file timeline =>
        (PeerPinned file timeline ↔ PairsAsPresented timeline)) ∧
      ∀ peerName, AtHello (Client.runOneSession crypto certDer peerName)
        (Client.secureConnection crypto certDer) fun file timeline =>
          (PeerPinned file timeline ↔ PairsAsPresented timeline) := by
  constructor
  · rintro screenPx file _ rest - consistent verified before ⟨after, rfl⟩ secured
    exact peerPinned_iff (fun _ => Server.pairsInOrder) secured
      (verified_of_append verified) (Timeline.consistent_of_append consistent)
  · rintro peerName file _ rest - consistent verified before ⟨after, rfl⟩ secured
    exact peerPinned_iff (fun _ => Client.pairsInOrder) secured
      (verified_of_append verified) (Timeline.consistent_of_append consistent)

/-! ## Runs with an honest peer and with a relay between -/

def serverCert : List UInt8 := [0x30, 1]

def clientCert : List UInt8 := [0x30, 2]

def relayCert : List UInt8 := [0x30, 3]

/-- A server that pairs with an honest client over a connection whose other end
presented the given certificate. -/
def serverRun (presented : List UInt8) : List (PeerEvent mockCrypto Server.ServerError) :=
  securing .missing none presented ++
    [⟨.getrandom, .ok 123456⟩, ⟨.displayCode "123456", .ok ()⟩, ⟨.onCode "123456", ()⟩,
      ⟨.spakeSeed, mockSeed 5⟩, ⟨.writeFrame (.pairSpakeA [0x41, 5]), .ok ()⟩,
      ⟨.readFrame, .ok (.pairSpakeB [0x42, 7])⟩,
      ⟨.writeFrame (certFrame mockCrypto mockKey serverCert), .ok ()⟩,
      ⟨.readFrame, .ok (certFrame mockCrypto mockKey clientCert)⟩,
      ⟨.storePin (toBytes32 clientCert), .ok ()⟩, ⟨.writeFrame .pairAccepted, .ok ()⟩,
      ⟨.readFrame, .ok .pairAccepted⟩]

/-- The client at the same time. -/
def clientRun (presented : List UInt8) : List (PeerEvent mockCrypto Client.ClientError) :=
  securing .missing none presented ++
    [⟨.codeProvider, .ok "123456"⟩, ⟨.readFrame, .ok (.pairSpakeA [0x41, 5])⟩,
      ⟨.spakeSeed, mockSeed 7⟩, ⟨.writeFrame (.pairSpakeB [0x42, 7]), .ok ()⟩,
      ⟨.writeFrame (certFrame mockCrypto mockKey clientCert), .ok ()⟩,
      ⟨.readFrame, .ok (certFrame mockCrypto mockKey serverCert)⟩,
      ⟨.storePin (toBytes32 serverCert), .ok ()⟩, ⟨.writeFrame .pairAccepted, .ok ()⟩,
      ⟨.readFrame, .ok .pairAccepted⟩]

def framesRead {ε : Type} (events : List (PeerEvent mockCrypto ε)) : List Message :=
  events.filterMap fun
    | ⟨.readFrame, .ok msg⟩ => some msg
    | _ => none

def framesWritten {ε : Type} (events : List (PeerEvent mockCrypto ε)) : List Message :=
  events.filterMap fun
    | ⟨.writeFrame msg, .ok _⟩ => some msg
    | _ => none

-- The relay only forwards.
example : framesRead (serverRun relayCert) = framesWritten (clientRun relayCert) ∧
    framesRead (clientRun relayCert) = framesWritten (serverRun relayCert) :=
  ⟨rfl, rfl⟩

/-- The Hello exchange after it. -/
def serverHello : List (PeerEvent mockCrypto Server.ServerError) :=
  [⟨.readFrame, .ok (.hello protoVersion "client")⟩,
    ⟨.writeFrame (.helloAck true (1920, 1080)), .ok ()⟩]

def clientHello : List (PeerEvent mockCrypto Client.ClientError) :=
  [⟨.writeFrame (.hello protoVersion "client"), .ok ()⟩,
    ⟨.readFrame, .ok (.helloAck true (1920, 1080))⟩]

/-- What holds after a run that nobody else disturbs. -/
theorem atHello_undisturbed {crypto : Crypto} {ε : Type}
    {session secure : Flow crypto ε (SessionEnd ε) Unit}
    {holds : PinFile → PeerTimeline crypto ε → Prop} {file : PinFile}
    {run hello : List (PeerEvent crypto ε)}
    {rest : Interaction (PeerReply crypto ε) (Except (SessionEnd ε) Unit)}
    (atHello : AtHello session secure holds) (trace : Trace session.run (run ++ hello) rest)
    (consistent : Timeline.Consistent pinAccess file (Timeline.undisturbed (run ++ hello)))
    (verified : Verified (run ++ hello))
    (secured : Trace secure.run run (.done (.ok ()))) :
    holds file (Timeline.undisturbed run) := by
  apply atHello file (Timeline.undisturbed (run ++ hello)) rest
  · rw [Timeline.own_undisturbed]
    exact trace
  · exact consistent
  · rw [Timeline.own_undisturbed]
    exact verified
  · exact ⟨Timeline.undisturbed hello, by simp [Timeline.undisturbed]⟩
  · rw [Timeline.own_undisturbed]
    exact secured

theorem serverRun_atHello (presented : List UInt8)
    {holds : PinFile → PeerTimeline mockCrypto Server.ServerError → Prop}
    (atHello : AtHello (Server.handlePeer mockCrypto serverCert (1920, 1080))
      (Server.secureConnection mockCrypto serverCert) holds) :
    holds .missing (Timeline.undisturbed (serverRun presented)) := by
  refine @atHello_undisturbed _ _ _ _ _ _ _ serverHello (.done (.ok ())) atHello
    ?_ ⟨rfl, trivial⟩ ?_ ?_
  · unfold serverRun securing serverHello
    repeat (first | exact Trace.here _ | apply Trace.step)
  · intro verifier shown member
    have same : verifier = .permissive ∧ shown = presented := by
      simpa [serverRun, serverHello, securing, CertVerifier.ofPinned] using member
    rw [same.1]
    rfl
  · unfold serverRun securing
    repeat (first | exact Trace.here _ | apply Trace.step)

theorem clientRun_atHello (presented : List UInt8)
    {holds : PinFile → PeerTimeline mockCrypto Client.ClientError → Prop}
    (atHello : AtHello (Client.runOneSession mockCrypto clientCert "client")
      (Client.secureConnection mockCrypto clientCert) holds) :
    holds .missing (Timeline.undisturbed (clientRun presented)) := by
  refine @atHello_undisturbed _ _ _ _ _ _ _ clientHello (.done (.ok ())) atHello
    ?_ ⟨rfl, trivial⟩ ?_ ?_
  · unfold clientRun securing clientHello
    repeat (first | exact Trace.here _ | apply Trace.step)
  · intro verifier shown member
    have same : verifier = .permissive ∧ shown = presented := by
      simpa [clientRun, clientHello, securing, CertVerifier.ofPinned] using member
    rw [same.1]
    rfl
  · unfold clientRun securing
    repeat (first | exact Trace.here _ | apply Trace.step)

/-- Both ends pin each other's certificate, and the store holds that pin. -/
theorem holdsPin_serverRun {presented certDer : List UInt8} :
    HoldsPin mockCrypto (Timeline.contents pinAccess .missing
      (Timeline.undisturbed (serverRun presented))) certDer ↔
        toBytes32 certDer = toBytes32 clientCert := by
  change PinStore.load (.text (PinStore.contents (toBytes32 clientCert))) = _ ↔ _
  rw [PinStore.load_contents, Except.ok.injEq, Option.some.injEq, eq_comm]
  rfl

theorem holdsPin_clientRun {presented certDer : List UInt8} :
    HoldsPin mockCrypto (Timeline.contents pinAccess .missing
      (Timeline.undisturbed (clientRun presented))) certDer ↔
        toBytes32 certDer = toBytes32 serverCert := by
  change PinStore.load (.text (PinStore.contents (toBytes32 serverCert))) = _ ↔ _
  rw [PinStore.load_contents, Except.ok.injEq, Option.some.injEq, eq_comm]
  rfl

theorem presents_serverRun {presented shown : List UInt8} :
    Presents (serverRun presented) shown ↔ shown = presented := by
  apply presents_securing
  simp

theorem presents_clientRun {presented shown : List UInt8} :
    Presents (clientRun presented) shown ↔ shown = presented := by
  apply presents_securing
  simp

/-- With a relay between them, both programs go on with a peer that is not the
pinned one. -/
theorem not_peerPinned_relay :
    ¬ AtHello (Server.handlePeer mockCrypto serverCert (1920, 1080))
        (Server.secureConnection mockCrypto serverCert) PeerPinned ∧
      ¬ AtHello (Client.runOneSession mockCrypto clientCert "client")
        (Client.secureConnection mockCrypto clientCert) PeerPinned := by
  constructor
  · intro atHello
    obtain ⟨shown, presents, holdsPin⟩ := serverRun_atHello relayCert atHello
    rw [Timeline.own_undisturbed, presents_serverRun] at presents
    rw [holdsPin_serverRun, presents] at holdsPin
    revert holdsPin
    decide
  · intro atHello
    obtain ⟨shown, presents, holdsPin⟩ := clientRun_atHello relayCert atHello
    rw [Timeline.own_undisturbed, presents_clientRun] at presents
    rw [holdsPin_clientRun, presents] at holdsPin
    revert holdsPin
    decide

/-- Without a relay, both are connected to the pinned peer. -/
theorem peerPinned_iff_pairsAsPresented_direct :
    PeerPinned .missing (Timeline.undisturbed (serverRun clientCert)) ∧
      PeerPinned .missing (Timeline.undisturbed (clientRun serverCert)) := by
  constructor
  · have atHello := (peerPinned_iff_pairsAsPresented mockCrypto serverCert).1 (1920, 1080)
    apply (serverRun_atHello clientCert atHello).mpr
    refine ⟨clientCert, ?_, ?_⟩
    · rw [Timeline.own_undisturbed]
      exact presents_serverRun.mpr rfl
    · rw [Timeline.disturbance_undisturbed, Timeline.own_undisturbed]
      exact .inr ⟨clientCert, certHmac mockCrypto mockKey clientCert,
        by simp [serverRun, certFrame], rfl⟩
  · have atHello := (peerPinned_iff_pairsAsPresented mockCrypto clientCert).2 "client"
    apply (clientRun_atHello serverCert atHello).mpr
    refine ⟨serverCert, ?_, ?_⟩
    · rw [Timeline.own_undisturbed]
      exact presents_clientRun.mpr rfl
    · rw [Timeline.disturbance_undisturbed, Timeline.own_undisturbed]
      exact .inr ⟨serverCert, certHmac mockCrypto mockKey serverCert,
        by simp [clientRun, certFrame], rfl⟩

end Kmwarp.Net
