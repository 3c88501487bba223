import Kmwarp.Net.Pairing

/-!
# Client pairing flow

The client asks its operator for the code and plays side B.
-/

namespace Kmwarp.Client

open Foundation Wire Tls Pairing Net

/-- The last variant is `CodeProvider`. -/
abbrev ClientPairingError : Type := PairingFlowError ClientError String

variable (crypto : Crypto)

abbrev PairingFlow (α : Type) : Type := Flow crypto ClientError ClientPairingError α

def ClientPairing.start (code : String) :
    PairingFlow crypto (crypto.Spake2 × SpakeMessage) :=
  startSpake crypto crypto.startB code

/-- Steps 1 to 4: get the code and derive the shared key. -/
def clientSharedKey : PairingFlow crypto SharedKey := do
  let code ← orFail .surface (← ask .codeProvider)
  let msgA ← expectFrame "expected PairSpakeA" spakeA?
  let (session, msgB) ← ClientPairing.start crypto code
  writeFrame (.pairSpakeB msgB)
  finishOrReject crypto session msgA

def runClientPairingFlow (certDer : List UInt8) : PairingFlow crypto Unit := do
  let sharedKey ← clientSharedKey crypto
  let peerCertDer ← exchangeCerts crypto certDer sharedKey
  pinPeerCert crypto peerCertDer

/-- The key was derived from the code given and the element A received. -/
def Derived (events : List (PeerEvent crypto ClientError)) (key : SharedKey) : Prop :=
  ∃ code seed msgA,
    ⟨.codeProvider, .ok code⟩ ∈ events ∧ ⟨.spakeSeed, seed⟩ ∈ events ∧
      ⟨.readFrame, .ok (.pairSpakeA msgA)⟩ ∈ events ∧
        finishSpake crypto (crypto.startB (asBytes code) idServer idClient seed).1 msgA =
          .ok key

variable {crypto}

/-- Deriving the key neither sends a certificate nor touches the pin store. -/
theorem within_clientSharedKey {allowed : PeerOp → Prop}
    (admits : ∀ op : PeerOp, op.Preliminary → op.BehindHandshake → allowed op) :
    (clientSharedKey crypto).run.Within allowed := by
  refine Interaction.within_mono
    (fun op (both : op.Preliminary ∧ op.BehindHandshake) => admits op both.1 both.2) ?_
  refine Interaction.within_exceptBind (within_ask ⟨trivial, trivial⟩) fun _ => ?_
  refine Interaction.within_exceptBind (within_orFail _ _) fun code => ?_
  refine Interaction.within_exceptBind ?_ fun msgA => ?_
  · exact within_expectFrame ⟨trivial, trivial⟩ fun _ => ⟨trivial, trivial⟩
  refine Interaction.within_exceptBind (within_startSpake ⟨trivial, trivial⟩) fun _ => ?_
  refine Interaction.within_exceptBind (within_writeFrame ⟨trivial, trivial⟩) fun _ => ?_
  exact within_finishOrReject fun _ => ⟨trivial, trivial⟩

theorem within_runClientPairingFlow {allowed : PeerOp → Prop} {certDer : List UInt8}
    (admits : ∀ op : PeerOp, op.BeforeHello → op.BehindHandshake → allowed op) :
    (runClientPairingFlow crypto certDer).run.Within allowed :=
  within_pairingFlow (within_clientSharedKey fun op preliminary =>
    admits op (PeerOp.beforeHello_of_preliminary preliminary)) admits

theorem trace_clientSharedKey_ok {key : SharedKey}
    {events : List (PeerEvent crypto ClientError)}
    (trace : Interaction.Trace (clientSharedKey crypto).run events (.done (.ok key))) :
    ∃ code msgA seed,
      events =
        [⟨.codeProvider, .ok code⟩, ⟨.readFrame, .ok (.pairSpakeA msgA)⟩,
          ⟨.spakeSeed, seed⟩,
          ⟨.writeFrame (.pairSpakeB
            (crypto.startB (asBytes code) idServer idClient seed).2), .ok ()⟩] ∧
        finishSpake crypto (crypto.startB (asBytes code) idServer idClient seed).1 msgA =
          .ok key := by
  obtain ⟨reply, asking, _, rfl, asked, afterAsk⟩ := Interaction.trace_exceptBind_ok trace
  obtain ⟨code, checking, _, rfl, checked, afterCode⟩ :=
    Interaction.trace_exceptBind_ok afterAsk
  obtain ⟨rfl, rfl⟩ := trace_orFail_ok checked
  obtain ⟨msgA, reading, _, rfl, read, afterRead⟩ :=
    Interaction.trace_exceptBind_ok afterCode
  obtain ⟨msg, rfl, isA⟩ := trace_expectFrame_ok read
  rw [eq_of_spakeA? isA]
  obtain ⟨⟨session, msgB⟩, starting, _, rfl, started, afterStart⟩ :=
    Interaction.trace_exceptBind_ok afterRead
  obtain ⟨seed, rfl, starts⟩ := trace_startSpake_ok started
  obtain ⟨_, writing, _, rfl, wrote, finished⟩ :=
    Interaction.trace_exceptBind_ok afterStart
  obtain ⟨rfl, derived⟩ := trace_finishOrReject_ok finished
  refine ⟨code, msgA, seed, ?_, ?_⟩
  · rw [trace_ask_ok asked, trace_writeFrame_ok wrote, ← starts]
    simp
  · rw [← starts]
    exact derived

end Kmwarp.Client
