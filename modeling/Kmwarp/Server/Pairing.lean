import Kmwarp.Net.Pairing

/-!
# Server pairing flow

The server shows a fresh code and plays side A.
-/

namespace Kmwarp.Server

open Foundation Wire Tls Pairing Net

/-- The last variant is `StdoutWrite`. -/
abbrev ServerPairingError : Type := PairingFlowError ServerError IoError

variable (crypto : Crypto)

abbrev PairingFlow (α : Type) : Type := Flow crypto ServerError ServerPairingError α

def generateCode : PairingFlow crypto String := do
  let random ← orFail (fun text => .pairing (.rng text)) (← ask .getrandom)
  return formatCode random

/-- `onCode` says whether there is a callback for the code. -/
def publishCode (onCode : Bool) (code : String) : PairingFlow crypto Unit :=
  if onCode then ask (.onCode code) else pure ()

def ServerPairing.start (code : String) :
    PairingFlow crypto (crypto.Spake2 × SpakeMessage) :=
  startSpake crypto crypto.startA code

/-- Steps 1 to 4: present a fresh code and derive the shared key. -/
def serverSharedKey (onCode : Bool) : PairingFlow crypto SharedKey := do
  let code ← generateCode crypto
  orFail .surface (← ask (.displayCode code))
  publishCode crypto onCode code
  let (session, msgA) ← ServerPairing.start crypto code
  writeFrame (.pairSpakeA msgA)
  let msgB ← expectFrame "expected PairSpakeB" spakeB?
  finishOrReject crypto session msgB

def runServerPairingFlow (certDer : List UInt8) (onCode : Bool) :
    PairingFlow crypto Unit := do
  let sharedKey ← serverSharedKey crypto onCode
  let peerCertDer ← exchangeCerts crypto certDer sharedKey
  pinPeerCert crypto peerCertDer

/-- The key was derived from the displayed code and the element B received. -/
def Derived (events : List (PeerEvent crypto ServerError)) (key : SharedKey) : Prop :=
  ∃ code seed msgB,
    ⟨.displayCode code, .ok ()⟩ ∈ events ∧ ⟨.spakeSeed, seed⟩ ∈ events ∧
      ⟨.readFrame, .ok (.pairSpakeB msgB)⟩ ∈ events ∧
        finishSpake crypto (crypto.startA (asBytes code) idServer idClient seed).1 msgB =
          .ok key

variable {crypto}

theorem trace_generateCode_ok {code : String}
    {events : List (PeerEvent crypto ServerError)}
    (trace : Interaction.Trace (generateCode crypto).run events (.done (.ok code))) :
    ∃ random, events = [⟨.getrandom, .ok random⟩] ∧ code = formatCode random := by
  obtain ⟨reply, asking, _, rfl, asked, afterAsk⟩ := Interaction.trace_exceptBind_ok trace
  obtain ⟨random, checking, _, rfl, checked, returned⟩ :=
    Interaction.trace_exceptBind_ok afterAsk
  obtain ⟨rfl, rfl⟩ := trace_orFail_ok checked
  cases returned
  exact ⟨random, by rw [trace_ask_ok asked]; rfl, rfl⟩

theorem trace_publishCode_ok {onCode : Bool} {code : String}
    {events : List (PeerEvent crypto ServerError)}
    (trace : Interaction.Trace (publishCode crypto onCode code).run events
      (.done (.ok ()))) :
    events = if onCode then [⟨.onCode code, ()⟩] else [] := by
  cases onCode with
  | false =>
      cases trace
      rfl
  | true => exact trace_ask_ok trace

/-- Deriving the key neither sends a certificate nor touches the pin store. -/
theorem within_serverSharedKey {allowed : PeerOp → Prop} (onCode : Bool)
    (admits : ∀ op : PeerOp, op.Preliminary → op.BehindHandshake → allowed op) :
    (serverSharedKey crypto onCode).run.Within allowed := by
  refine Interaction.within_mono
    (fun op (both : op.Preliminary ∧ op.BehindHandshake) => admits op both.1 both.2) ?_
  refine Interaction.within_exceptBind ?_ fun code => ?_
  · refine Interaction.within_exceptBind (within_ask ⟨trivial, trivial⟩) fun _ => ?_
    exact Interaction.within_exceptBind (within_orFail _ _) fun _ => trivial
  refine Interaction.within_exceptBind (within_ask ⟨trivial, trivial⟩) fun _ => ?_
  refine Interaction.within_exceptBind (within_orFail _ _) fun _ => ?_
  refine Interaction.within_exceptBind ?_ fun _ => ?_
  · cases onCode with
    | false => trivial
    | true => exact within_ask ⟨trivial, trivial⟩
  refine Interaction.within_exceptBind (within_startSpake ⟨trivial, trivial⟩) fun _ => ?_
  refine Interaction.within_exceptBind (within_writeFrame ⟨trivial, trivial⟩) fun _ => ?_
  refine Interaction.within_exceptBind ?_ fun msgB => ?_
  · exact within_expectFrame ⟨trivial, trivial⟩ fun _ => ⟨trivial, trivial⟩
  · exact within_finishOrReject fun _ => ⟨trivial, trivial⟩

theorem within_runServerPairingFlow {allowed : PeerOp → Prop} {certDer : List UInt8}
    {onCode : Bool}
    (admits : ∀ op : PeerOp, op.BeforeHello → op.BehindHandshake → allowed op) :
    (runServerPairingFlow crypto certDer onCode).run.Within allowed :=
  within_pairingFlow (within_serverSharedKey onCode fun op preliminary =>
    admits op (PeerOp.beforeHello_of_preliminary preliminary)) admits

theorem trace_serverSharedKey_ok {onCode : Bool} {key : SharedKey}
    {events : List (PeerEvent crypto ServerError)}
    (trace : Interaction.Trace (serverSharedKey crypto onCode).run events
      (.done (.ok key))) :
    ∃ random seed msgB,
      events =
        [⟨.getrandom, .ok random⟩, ⟨.displayCode (formatCode random), .ok ()⟩] ++
          (if onCode then [⟨.onCode (formatCode random), ()⟩] else []) ++
            [⟨.spakeSeed, seed⟩,
              ⟨.writeFrame (.pairSpakeA
                (crypto.startA (asBytes (formatCode random)) idServer idClient seed).2),
                .ok ()⟩,
              ⟨.readFrame, .ok (.pairSpakeB msgB)⟩] ∧
        finishSpake crypto
          (crypto.startA (asBytes (formatCode random)) idServer idClient seed).1 msgB =
            .ok key := by
  obtain ⟨code, generating, _, rfl, generated, afterCode⟩ :=
    Interaction.trace_exceptBind_ok trace
  obtain ⟨random, rfl, rfl⟩ := trace_generateCode_ok generated
  obtain ⟨displayed, displaying, _, rfl, asked, afterDisplay⟩ :=
    Interaction.trace_exceptBind_ok afterCode
  obtain ⟨_, checking, _, rfl, checked, afterCheck⟩ :=
    Interaction.trace_exceptBind_ok afterDisplay
  obtain ⟨rfl, rfl⟩ := trace_orFail_ok checked
  obtain ⟨_, publishing, _, rfl, published, afterPublish⟩ :=
    Interaction.trace_exceptBind_ok afterCheck
  obtain ⟨⟨session, msgA⟩, starting, _, rfl, started, afterStart⟩ :=
    Interaction.trace_exceptBind_ok afterPublish
  obtain ⟨seed, rfl, starts⟩ := trace_startSpake_ok started
  obtain ⟨_, writing, _, rfl, wrote, afterWrite⟩ :=
    Interaction.trace_exceptBind_ok afterStart
  obtain ⟨msgB, reading, finishing, rfl, read, finished⟩ :=
    Interaction.trace_exceptBind_ok afterWrite
  obtain ⟨msg, rfl, isB⟩ := trace_expectFrame_ok read
  rw [eq_of_spakeB? isB]
  obtain ⟨rfl, derived⟩ := trace_finishOrReject_ok finished
  refine ⟨random, seed, msgB, ?_, ?_⟩
  · rw [trace_ask_ok asked, trace_publishCode_ok published, trace_writeFrame_ok wrote,
      ← starts]
    simp
  · rw [← starts]
    exact derived

end Kmwarp.Server
