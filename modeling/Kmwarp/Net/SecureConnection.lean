import Kmwarp.Foundation.SharedCell
import Kmwarp.Net.Pairing

/-!
# Securing a connection

Before the Hello exchange a connection is secured: the handshake checks the pin
on disk, or accepts every certificate and leaves the check to the pairing flow.
The flow pins the certificate it receives in a frame, which need not be the one
the handshake was made with.
-/

namespace Kmwarp.Net

open Foundation Wire Tls Pairing Interaction

/-- How a connection ends before its session: with `Ok(())`, or with an error. -/
inductive SessionEnd (ε : Type) where
  | closed
  | failed (error : ε)

section Secure

variable {crypto : Crypto} {ε surface : Type}

/-- What both programs do before the Hello exchange; `pair` is their pairing
flow. -/
def secureConnection (io : IoError → ε)
    (pair : Flow crypto ε (PairingFlowError ε surface) Unit) :
    Flow crypto ε (SessionEnd ε) Unit := do
  orFail (fun error => .failed (io error)) (← ask .setNodelay)
  let pinned ← orFail (fun _ => .closed) (PinStore.load (← ask .readPinFile))
  orFail (fun _ => .closed) (← ask (.buildConfig pinned))
  let _ ← orFail (fun _ => .closed) (← ask (.handshake (CertVerifier.ofPinned pinned)))
  if pinned.isNone then
    orFail (fun _ => .closed) (← ExceptT.lift pair.run)

variable {events : List (PeerEvent crypto ε)} {io : IoError → ε}
  {pair : Flow crypto ε (PairingFlowError ε surface) Unit}

/-- The events of a secured connection before it pairs. -/
def securing (file : PinFile) (pinned : Option PinHash) (presented : List UInt8) :
    List (PeerEvent crypto ε) :=
  [⟨.setNodelay, .ok ()⟩, ⟨.readPinFile, file⟩, ⟨.buildConfig pinned, .ok ()⟩,
    ⟨.handshake (CertVerifier.ofPinned pinned), .ok presented⟩]

/-- A connection that has loaded its file goes on to pair if there is no pin. -/
theorem trace_securing {file : PinFile}
    {pinned : Option PinHash} {presented : List UInt8} (loads : PinStore.load file = .ok pinned)
    {pairing : List (PeerEvent crypto ε)}
    {rest : Interaction (PeerReply crypto ε) (Except (SessionEnd ε) Unit)}
    (onward : Trace (if pinned.isNone then do
        orFail (fun _ => .closed) (← ExceptT.lift pair.run)
      else pure () : Flow crypto ε (SessionEnd ε) Unit).run pairing rest) :
    Trace (secureConnection io pair).run (securing file pinned presented ++ pairing) rest := by
  apply Trace.step
  apply Trace.step
  simp only [Interaction.bind, Function.comp_apply, ExceptT.bindCont, loads]
  apply Trace.step
  apply Trace.step
  exact onward

/-- A secured connection has a handshake against the pin it has loaded, and
without a pin it has paired. -/
theorem trace_secureConnection_ok
    (trace : Trace (secureConnection io pair).run events (.done (.ok ()))) :
    ∃ file pinned presented pairing,
      PinStore.load file = .ok pinned ∧
        events = securing file pinned presented ++ pairing ∧
        match pinned with
        | some _ => pairing = []
        | none => Trace pair.run pairing (.done (.ok ())) := by
  obtain ⟨_, _, _, rfl, asked, afterNodelay⟩ := trace_exceptBind_ok trace
  obtain ⟨_, _, _, rfl, checked, afterCheck⟩ := trace_exceptBind_ok afterNodelay
  obtain ⟨file, _, _, rfl, read, afterRead⟩ := trace_exceptBind_ok afterCheck
  obtain ⟨pinned, _, _, rfl, loaded, afterLoad⟩ := trace_exceptBind_ok afterRead
  obtain ⟨_, _, _, rfl, built, afterBuild⟩ := trace_exceptBind_ok afterLoad
  obtain ⟨_, _, _, rfl, configured, afterConfig⟩ := trace_exceptBind_ok afterBuild
  obtain ⟨_, _, _, rfl, shaken, afterShake⟩ := trace_exceptBind_ok afterConfig
  obtain ⟨presented, _, pairing, rfl, accepted, paired⟩ := trace_exceptBind_ok afterShake
  obtain ⟨rfl, rfl⟩ := trace_orFail_ok checked
  obtain ⟨rfl, loads⟩ := trace_orFail_ok loaded
  obtain ⟨rfl, rfl⟩ := trace_orFail_ok configured
  obtain ⟨rfl, rfl⟩ := trace_orFail_ok accepted
  refine ⟨file, pinned, presented, pairing, loads, ?_, ?_⟩
  · rw [trace_ask_ok asked, trace_ask_ok read, trace_ask_ok built, trace_ask_ok shaken]
    rfl
  · cases pinned with
    | some pin =>
        cases paired
        rfl
    | none =>
        obtain ⟨_, _, _, rfl, lifted, answered⟩ := trace_exceptBind_ok paired
        obtain ⟨rfl, rfl⟩ := trace_orFail_ok answered
        rw [List.append_nil]
        exact trace_lift_ok lifted

/-! ## The pin file -/

/-- The pin file as the connection sees and leaves it. -/
def pinAccess : PeerEvent crypto ε → Option (Access PinFile)
  | ⟨.readPinFile, file⟩ => some (.read file)
  | ⟨.storePin pin, .ok _⟩ => some (.write (.text (PinStore.contents pin)))
  | _ => none

variable (crypto ε) in
/-- The events of a connection and, between them, what others leave in the pin
file. -/
abbrev PeerTimeline : Type := Timeline PinFile (PeerEvent crypto ε)

/-- The certificate the peer presented in the handshake. -/
def Presents (events : List (PeerEvent crypto ε)) (presented : List UInt8) : Prop :=
  ∃ verifier, ⟨.handshake verifier, .ok presented⟩ ∈ events

/-- A handshake succeeds only if its verifier accepts the certificate. -/
def Verified (events : List (PeerEvent crypto ε)) : Prop :=
  ∀ verifier presented, ⟨.handshake verifier, .ok presented⟩ ∈ events →
    verifier.verifyCert crypto.sha256 presented = .ok ()

theorem verified_of_append {before after : PeerTimeline crypto ε}
    (verified : Verified (Timeline.own (before ++ after))) :
    Verified (Timeline.own before) := by
  intro verifier presented member
  rw [Timeline.own_append] at verified
  exact verified verifier presented (List.mem_append_left _ member)

variable (crypto) in
/-- The file holds the pin of the certificate. -/
def HoldsPin (file : PinFile) (certDer : List UInt8) : Prop :=
  PinStore.load file = .ok (some (pinHashOf crypto.sha256 certDer))

/-- The pin store holds the pin of the peer at the other end of the connection. -/
def PeerPinned (file : PinFile) (timeline : PeerTimeline crypto ε) : Prop :=
  ∃ presented, Presents timeline.own presented ∧
    HoldsPin crypto (timeline.contents pinAccess file) presented

/-- There was a pin on disk when the connection looked. -/
def LoadsPin (events : List (PeerEvent crypto ε)) : Prop :=
  ∃ file pin, ⟨.readPinFile, file⟩ ∈ events ∧ PinStore.load file = .ok (some pin)

/-- The peer has sent the certificate for pairing. -/
def PairsWith (events : List (PeerEvent crypto ε)) (presented : List UInt8) : Prop :=
  ∃ certDer hmac, ⟨.readFrame, .ok (.pairCertExchange certDer hmac)⟩ ∈ events ∧
    pinHashOf crypto.sha256 presented = pinHashOf crypto.sha256 certDer

/-- If others were the last to write the pin file, they have left the pin of the
certificate presented.  Otherwise there was a pin on disk, or the peer has paired
with the certificate it presented. -/
def PairsAsPresented (timeline : PeerTimeline crypto ε) : Prop :=
  ∃ presented, Presents timeline.own presented ∧
    match timeline.disturbance pinAccess none with
    | some file => HoldsPin crypto file presented
    | none => LoadsPin timeline.own ∨ PairsWith timeline.own presented

/-- Events that neither concern the pin file nor carry a certificate. -/
def WithoutCert : PeerEvent crypto ε → Prop
  | ⟨.handshake _, _⟩ | ⟨.readPinFile, _⟩ | ⟨.storePin _, _⟩
  | ⟨.readFrame, .ok (.pairCertExchange ..)⟩ => False
  | _ => True

/-- A successful pairing flow: after other events, a certificate is received and
its pin is stored. -/
def PairsInOrder (pairing : List (PeerEvent crypto ε)) : Prop :=
  ∃ before own peerCertDer hmac,
    (∀ event ∈ before, WithoutCert event) ∧
      pairing = before ++ [⟨.writeFrame own, .ok ()⟩,
        ⟨.readFrame, .ok (.pairCertExchange peerCertDer hmac)⟩,
        ⟨.storePin (pinHashOf crypto.sha256 peerCertDer), .ok ()⟩,
        ⟨.writeFrame .pairAccepted, .ok ()⟩, ⟨.readFrame, .ok .pairAccepted⟩]

theorem trace_pairingFlow_ok
    {derive : Flow crypto ε (PairingFlowError ε surface) SharedKey}
    {certDer : List UInt8} {pairing : List (PeerEvent crypto ε)}
    (derives : ∀ key before, Trace derive.run before (.done (.ok key)) →
      ∀ event ∈ before, WithoutCert event)
    (trace : Trace (derive >>= fun key =>
      exchangeCerts crypto certDer key >>= pinPeerCert crypto).run pairing
        (.done (.ok ()))) :
    PairsInOrder pairing := by
  obtain ⟨key, before, _, rfl, derived, afterDerive⟩ := trace_exceptBind_ok trace
  obtain ⟨peerCertDer, exchange, pinning, rfl, exchanged, pinned⟩ :=
    trace_exceptBind_ok afterDerive
  rw [trace_pinPeerCert_ok pinned]
  rcases trace_exchangeCerts exchanged with ⟨_, same, rfl⟩ | ⟨notDone, _⟩
  · cases same
    exact ⟨before, _, peerCertDer, _, derives key before derived, rfl⟩
  · exact absurd rfl (notDone peerCertDer)

/-! ## The pin after securing -/

/-- With a pin on disk the handshake has compared it. -/
theorem holdsPin_of_loaded {file : PinFile} {pin : PinHash} {presented : List UInt8}
    (loads : PinStore.load file = .ok (some pin))
    (accepts : (CertVerifier.ofPinned (some pin)).verifyCert crypto.sha256 presented =
      .ok ()) : HoldsPin crypto file presented := by
  rw [CertVerifier.ofPinned, CertVerifier.verifyCert] at accepts
  split at accepts
  · rename_i same
    rw [HoldsPin, loads, same]
  · cases accepts

/-- A pairing flow leaves the pin of the certificate received. -/
theorem lastSeen_pairsInOrder {pairing : List (PeerEvent crypto ε)} {seen : PinFile}
    {presented : List UInt8} (inOrder : PairsInOrder pairing) :
    HoldsPin crypto (Timeline.lastSeen pinAccess seen pairing) presented ↔
      PairsWith pairing presented := by
  obtain ⟨before, own, peerCertDer, hmac, withoutCert, rfl⟩ := inOrder
  have stored : HoldsPin crypto (Timeline.lastSeen pinAccess seen (before ++
      [⟨.writeFrame own, .ok ()⟩,
        ⟨.readFrame, .ok (.pairCertExchange peerCertDer hmac)⟩,
        ⟨.storePin (pinHashOf crypto.sha256 peerCertDer), .ok ()⟩,
        ⟨.writeFrame .pairAccepted, .ok ()⟩, ⟨.readFrame, .ok .pairAccepted⟩]))
      presented ↔ pinHashOf crypto.sha256 presented =
        pinHashOf crypto.sha256 peerCertDer := by
    rw [Timeline.lastSeen_append, HoldsPin]
    change PinStore.load (.text (PinStore.contents _)) = _ ↔ _
    rw [PinStore.load_contents, Except.ok.injEq, Option.some.injEq, eq_comm]
  rw [stored]
  constructor
  · intro same
    exact ⟨peerCertDer, hmac, by simp, same⟩
  · rintro ⟨certDer, receivedHmac, received, same⟩
    rcases List.mem_append.mp received with early | late
    · exact (withoutCert _ early).elim
    · have received : certDer = peerCertDer ∧ receivedHmac = hmac := by simpa using late
      rw [same, received.1]

theorem presents_securing {file : PinFile} {pinned : Option PinHash}
    {presented other : List UInt8} {pairing : List (PeerEvent crypto ε)}
    (noHandshake : ∀ verifier reply, ⟨.handshake verifier, reply⟩ ∉ pairing) :
    Presents (securing file pinned presented ++ pairing) other ↔ other = presented := by
  constructor
  · rintro ⟨verifier, member⟩
    rcases List.mem_append.mp member with first | second
    · have same : verifier = CertVerifier.ofPinned pinned ∧ other = presented := by
        simpa [securing] using first
      exact same.2
    · exact absurd second (noHandshake _ _)
  · rintro rfl
    exact ⟨CertVerifier.ofPinned pinned, by simp [securing]⟩

/-- Pairing neither looks for a pin nor makes a handshake. -/
theorem asked_of_pairsInOrder {pairing : List (PeerEvent crypto ε)}
    (inOrder : PairsInOrder pairing) :
    ∀ event ∈ pairing,
      event.1 ≠ .readPinFile ∧ ∀ verifier, event.1 ≠ .handshake verifier := by
  obtain ⟨before, own, peerCertDer, hmac, withoutCert, rfl⟩ := inOrder
  rintro ⟨op, reply⟩ member
  rcases List.mem_append.mp member with early | late
  · have absent := withoutCert _ early
    constructor
    · rintro rfl
      exact absent
    · rintro verifier rfl
      exact absent
  · have asked : op ∈ [.writeFrame own, .readFrame,
        .storePin (pinHashOf crypto.sha256 peerCertDer), .writeFrame .pairAccepted,
        .readFrame] := @List.mem_map_of_mem _ _ _ _ Sigma.fst late
    constructor
    · rintro rfl
      simp at asked
    · rintro verifier rfl
      simp at asked

/-- With a pin on disk, the file the connection has read holds the pin of the
peer. -/
theorem holdsPin_iff_of_pinMode {file seen : PinFile} {pin : PinHash}
    {presented : List UInt8} (loads : PinStore.load file = .ok (some pin))
    (verified : Verified (securing file (some pin) presented :
      List (PeerEvent crypto ε))) :
    HoldsPin crypto (Timeline.lastSeen pinAccess seen
      (securing file (some pin) presented : List (PeerEvent crypto ε))) presented ↔
        LoadsPin (securing file (some pin) presented : List (PeerEvent crypto ε)) ∨
          PairsWith (securing file (some pin) presented : List (PeerEvent crypto ε))
            presented := by
  apply iff_of_true
  · exact holdsPin_of_loaded loads (verified _ presented (by simp [securing]))
  · exact .inl ⟨file, pin, by simp [securing], loads⟩

/-- Without one, the connection has stored the pin of the certificate received. -/
theorem holdsPin_iff_of_pairingMode {file seen : PinFile} {presented : List UInt8}
    {pairing : List (PeerEvent crypto ε)} (loads : PinStore.load file = .ok none)
    (inOrder : PairsInOrder pairing) :
    HoldsPin crypto (Timeline.lastSeen pinAccess seen
      (securing file none presented ++ pairing)) presented ↔
        LoadsPin (securing file none presented ++ pairing) ∨
          PairsWith (securing file none presented ++ pairing) presented := by
  rw [Timeline.lastSeen_append, lastSeen_pairsInOrder inOrder]
  constructor
  · rintro ⟨certDer, hmac, received, same⟩
    exact .inr ⟨certDer, hmac, List.mem_append_right _ received, same⟩
  · rintro (⟨other, pin, read, loadsPin⟩ | ⟨certDer, hmac, received, same⟩)
    · rcases List.mem_append.mp read with first | second
      · have same : other = file := by simpa [securing] using first
        rw [same, loads] at loadsPin
        cases loadsPin
      · exact absurd rfl (asked_of_pairsInOrder inOrder _ second).1
    · rcases List.mem_append.mp received with first | second
      · simp [securing] at first
      · exact ⟨certDer, hmac, second, same⟩

/-- When the connection is secured, the pin store holds the pin of the peer
exactly if the peer has paired with the certificate it presented. -/
theorem peerPinned_iff {file : PinFile} {timeline : PeerTimeline crypto ε}
    (pairsInOrder : ∀ pairing, Trace pair.run pairing (.done (.ok ())) →
      PairsInOrder pairing)
    (trace : Trace (secureConnection io pair).run timeline.own (.done (.ok ())))
    (verified : Verified timeline.own)
    (consistent : timeline.Consistent pinAccess file) :
    PeerPinned file timeline ↔ PairsAsPresented timeline := by
  refine exists_congr fun presented => and_congr_right fun presents => ?_
  rw [Timeline.contents_eq consistent]
  cases timeline.disturbance pinAccess none with
  | some left => exact Iff.rfl
  | none =>
      obtain ⟨read, pinned, shown, pairing, loads, split, paired⟩ :=
        trace_secureConnection_ok trace
      rw [Option.getD_none]
      cases pinned with
      | some pin =>
          rw [paired] at split
          rw [split] at presents verified ⊢
          have same := (presents_securing fun _ _ => List.not_mem_nil).mp presents
          rw [List.append_nil] at verified ⊢
          rw [same]
          exact holdsPin_iff_of_pinMode loads verified
      | none =>
          have inOrder := pairsInOrder pairing paired
          rw [split] at presents ⊢
          have same :=
            (presents_securing fun verifier reply member =>
              (asked_of_pairsInOrder inOrder _ member).2 verifier rfl).mp presents
          rw [same]
          exact holdsPin_iff_of_pairingMode loads inOrder

end Secure

end Kmwarp.Net
