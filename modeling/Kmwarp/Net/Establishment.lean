import Kmwarp.Net.Peers

/-!
# Establishing a connection

Each program chooses between pairing and the Hello exchange by the pin it finds
on its own disk.
-/

namespace Kmwarp.Net

open Foundation Wire Tls Pairing Interaction

variable {crypto : Crypto} {ε surface : Type}

/-- The pin file holds the pin of the peer's certificate, or there is none. -/
structure TruePin (crypto : Crypto) (file : PinFile) (peerCertDer : List UInt8)
    (pinned : Option PinHash) : Prop where
  loads : PinStore.load file = .ok pinned
  isTrue : ∀ pin ∈ pinned, pin = pinHashOf crypto.sha256 peerCertDer

/-- The pin file is the one given, and the handshake ends as its verifier says
about the peer's certificate.  Anything else may happen. -/
def setupReplies (file : PinFile) (peerCertDer : List UInt8) :
    (op : PeerOp) → PeerReply crypto ε op → Prop
  | .readPinFile, seen => seen = file
  | .handshake verifier, result =>
      match verifier.verifyCert crypto.sha256 peerCertDer with
      | .ok () => result = .ok peerCertDer
      | .error _ => ∃ text, result = .error text
  | _, _ => True

/-- Where a server reads frames: a step ahead of its peer while pairing, and level
with it when it waits for Hello. -/
def serverReadsAt (pinned : Option PinHash) (tally : Tally) : Prop :=
  tally.sent = tally.received + 1 ∨
    tally = match pinned with
      | some _ => {}
      | none => ⟨3, 3⟩

/-- Where a client reads frames: a step ahead, except that pairing starts with a
frame of the server. -/
def clientReadsAt (pinned : Option PinHash) (tally : Tally) : Prop :=
  tally.sent = tally.received + 1 ∨ pinned = none ∧ tally = {}

section Tally

variable {errors : ReadErrors ε} {file : PinFile} {peerCertDer : List UInt8}
  {pinned : Option PinHash}

/-- A connection is secured without frames if there is a pin on disk. -/
theorem keeps_secureConnection {balanced : Tally → Prop} {io : IoError → ε}
    {pair : Flow crypto ε (PairingFlowError ε surface) Unit} {post : Tally → Unit → Prop}
    (loads : PinStore.load file = .ok pinned)
    (withPin : pinned.isSome → post {} ())
    (pairs : pinned = none → pair.run.Keeps
      (frameTally errors (setupReplies file peerCertDer) balanced) (OnSuccess post) {}) :
    (secureConnection io pair).run.Keeps
      (frameTally errors (setupReplies file peerCertDer) balanced) (OnSuccess post) {} := by
  refine keeps_exceptBind (keeps_ask (by trivial) fun _ _ => ?_)
  refine keeps_exceptBind (keeps_orFail fun _ _ => ?_)
  refine keeps_exceptBind (keeps_ask (by trivial) fun seen same => ?_)
  refine keeps_exceptBind (keeps_orFail fun found loaded => ?_)
  obtain rfl : seen = file := same
  obtain rfl : pinned = found := by
    rw [loads] at loaded
    exact Except.ok.inj loaded
  refine keeps_exceptBind (keeps_ask (by trivial) fun _ _ => ?_)
  refine keeps_exceptBind (keeps_orFail fun _ _ => ?_)
  refine keeps_exceptBind (keeps_ask (by trivial) fun _ _ => ?_)
  refine keeps_exceptBind (keeps_orFail fun _ _ => ?_)
  cases pinned with
  | some pin => exact withPin rfl
  | none =>
      refine keeps_exceptBind (keeps_lift (keeps_mono ?_ (pairs rfl)))
      intro tally result holds
      cases result with
      | error error => trivial
      | ok => exact holds

/-- Both flows read a step ahead once they have derived the key. -/
theorem keeps_pairingFlow {balanced : Tally → Prop}
    {derive : Flow crypto ε (PairingFlowError ε surface) SharedKey} {certDer : List UInt8}
    (ahead : ∀ tally : Tally, tally.sent = tally.received + 1 → balanced tally)
    (derives : derive.run.Keeps (frameTally errors (setupReplies file peerCertDer) balanced)
      (OnSuccess fun tally _ => tally = ⟨1, 1⟩) {}) :
    (derive >>= fun key => exchangeCerts crypto certDer key >>= pinPeerCert crypto).run.Keeps
      (frameTally errors (setupReplies file peerCertDer) balanced)
        (OnSuccess fun tally _ => tally = ⟨3, 3⟩) {} := by
  refine keeps_exceptBind (keeps_success_mono ?_ derives)
  rintro _ key rfl
  refine keeps_exceptBind (keeps_exchangeCerts (ahead _ rfl) fun peerCertDer => ?_)
  exact keeps_pinPeerCert (ahead _ rfl) rfl

end Tally

end Kmwarp.Net

namespace Kmwarp.Server

open Foundation Wire Tls Pairing Net Interaction

variable {crypto : Crypto} {file : PinFile} {peerCertDer certDer : List UInt8}
  {pinned : Option PinHash}

/-- A server's end of a connection whose setup is still under way. -/
abbrev settingUp (crypto : Crypto) (file : PinFile) (peerCertDer : List UInt8) :
    Party Message :=
  @peerParty crypto _ readErrors (setupReplies file peerCertDer) (SessionEnd ServerError)

theorem keeps_serverSharedKey {balanced : Tally → Prop} {onCode : Bool}
    (ahead : ∀ tally : Tally, tally.sent = tally.received + 1 → balanced tally) :
    (serverSharedKey crypto onCode).run.Keeps
      (frameTally readErrors (setupReplies file peerCertDer) balanced)
        (OnSuccess fun tally _ => tally = ⟨1, 1⟩) {} := by
  have published : ∀ {code} {post : Tally → Unit → Prop}, post {} () →
      (publishCode crypto onCode code).run.Keeps
        (frameTally readErrors (setupReplies file peerCertDer) balanced)
          (OnSuccess post) {} := by
    intro code post holds
    cases onCode with
    | false => exact holds
    | true => exact keeps_ask (by trivial) fun _ _ => holds
  refine keeps_exceptBind ?_
  refine keeps_exceptBind (keeps_ask (by trivial) fun _ _ => ?_)
  refine keeps_exceptBind (keeps_orFail fun random _ => ?_)
  refine keeps_exceptBind (keeps_ask (by trivial) fun _ _ => ?_)
  refine keeps_exceptBind (keeps_orFail fun _ _ => ?_)
  refine keeps_exceptBind (published ?_)
  -- The digits of the code do not matter.
  generalize formatCode random = code
  refine keeps_exceptBind (keeps_startSpake fun started => ?_)
  refine keeps_exceptBind (keeps_writeFrame ?_)
  refine keeps_exceptBind (keeps_expectFrame (ahead _ rfl) fun msgB => ?_)
  exact keeps_finishOrReject fun _ => rfl

theorem keeps_handlePeer {screenPx : UInt16 × UInt16}
    (loads : PinStore.load file = .ok pinned) :
    (handlePeer crypto certDer screenPx).run.Keeps
      (frameTally readErrors (setupReplies file peerCertDer) (serverReadsAt pinned))
        (OnSuccess fun _ _ => True) {} := by
  have secures : (secureConnection crypto certDer).run.Keeps
      (frameTally readErrors (setupReplies file peerCertDer) (serverReadsAt pinned))
        (OnSuccess fun tally _ => serverReadsAt pinned tally) {} := by
    refine keeps_secureConnection loads (fun hasPin => ?_) ?_
    · cases pinned with
      | some pin => exact .inr rfl
      | none => cases hasPin
    · rintro rfl
      exact keeps_success_mono (fun _ _ => .inr) (keeps_pairingFlow (fun _ => .inl)
        (keeps_serverSharedKey fun _ => .inl))
  refine keeps_exceptBind (keeps_success_mono (fun tally _ atRead => ?_) secures)
  refine keeps_exceptBind (keeps_askRead atRead (fun msg => ?_) fun _ => trivial)
  refine keeps_exceptBind (keeps_orFail fun hello _ => ?_)
  split
  · exact keeps_exceptBind (keeps_askWrite trivial fun _ => trivial)
  · trivial

end Kmwarp.Server

namespace Kmwarp.Client

open Foundation Wire Tls Pairing Net Interaction

variable {crypto : Crypto} {file : PinFile} {peerCertDer certDer : List UInt8}
  {pinned : Option PinHash}

/-- The same for a client. -/
abbrev settingUp (crypto : Crypto) (file : PinFile) (peerCertDer : List UInt8) :
    Party Message :=
  @peerParty crypto _ readErrors (setupReplies file peerCertDer) (SessionEnd ClientError)

theorem keeps_clientSharedKey {balanced : Tally → Prop} (atStart : balanced {}) :
    (clientSharedKey crypto).run.Keeps
      (frameTally readErrors (setupReplies file peerCertDer) balanced)
        (OnSuccess fun tally _ => tally = ⟨1, 1⟩) {} := by
  refine keeps_exceptBind (keeps_ask (by trivial) fun _ _ => ?_)
  refine keeps_exceptBind (keeps_orFail fun code _ => ?_)
  refine keeps_exceptBind (keeps_expectFrame atStart fun msgA => ?_)
  refine keeps_exceptBind (keeps_startSpake fun started => ?_)
  refine keeps_exceptBind (keeps_writeFrame ?_)
  exact keeps_finishOrReject fun _ => rfl

theorem keeps_runOneSession {peerName : String} (loads : PinStore.load file = .ok pinned) :
    (runOneSession crypto certDer peerName).run.Keeps
      (frameTally readErrors (setupReplies file peerCertDer) (clientReadsAt pinned))
        (OnSuccess fun _ _ => True) {} := by
  have secures : (secureConnection crypto certDer).run.Keeps
      (frameTally readErrors (setupReplies file peerCertDer) (clientReadsAt pinned))
        (OnSuccess fun tally _ => tally.sent = tally.received) {} := by
    refine keeps_secureConnection loads (fun _ => rfl) ?_
    rintro rfl
    refine keeps_success_mono ?_ (keeps_pairingFlow (fun _ => .inl)
      (keeps_clientSharedKey (.inr ⟨rfl, rfl⟩)))
    rintro _ _ rfl
    rfl
  refine keeps_exceptBind (keeps_success_mono (fun tally _ level => ?_) secures)
  refine keeps_exceptBind (keeps_askWrite ?_ fun _ => trivial)
  refine keeps_exceptBind (keeps_orFail fun _ _ => ?_)
  refine keeps_exceptBind (keeps_askRead (.inl (congrArg (· + 1) level)) (fun msg => ?_)
    fun _ => trivial)
  refine keeps_exceptBind (keeps_orFail fun helloAck _ => ?_)
  split
  · split <;> trivial
  · trivial

end Kmwarp.Client

namespace Kmwarp.Net

open Foundation Wire Tls Pairing Interaction

variable {crypto : Crypto} {ε surface : Type}

theorem verifyCert_ofPinned {peerCertDer : List UInt8} {pinned : Option PinHash}
    (isTrue : ∀ pin ∈ pinned, pin = pinHashOf crypto.sha256 peerCertDer) :
    (CertVerifier.ofPinned pinned).verifyCert crypto.sha256 peerCertDer = .ok () := by
  cases pinned with
  | none => rfl
  | some pin =>
      obtain rfl := isTrue pin rfl
      exact if_pos rfl

/-- Securing a connection to the true peer up to a pairing flow. -/
theorem performs_securing {errors : ReadErrors ε} {file : PinFile}
    {peerCertDer : List UInt8} {pinned : Option PinHash} {failure : Type}
    (truePin : TruePin crypto file peerCertDer pinned) :
    ∀ event ∈ (securing file pinned peerCertDer : List (PeerEvent crypto ε)),
      (peerParty errors (setupReplies file peerCertDer) failure).Performs event := by
  have verified : @setupReplies crypto ε file peerCertDer
      (.handshake (CertVerifier.ofPinned pinned)) (.ok peerCertDer) := by
    simp only [setupReplies, verifyCert_ofPinned truePin.isTrue]
  intro event member
  simp only [securing, List.mem_cons, List.not_mem_nil, or_false] at member
  rcases member with rfl | rfl | rfl | rfl
  · exact performs_of_local trivial trivial
  · exact performs_of_local trivial rfl
  · exact performs_of_local trivial trivial
  · exact performs_of_local trivial verified

/-- Both programs up to the end of the Hello exchange, with no frame sent yet. -/
def connecting (crypto : Crypto) (serverCert clientCert : List UInt8)
    (serverFile clientFile : PinFile) (screenPx : UInt16 × UInt16) (peerName : String) :
    Duplex (Server.settingUp crypto serverFile clientCert)
      (Client.settingUp crypto clientFile serverCert) :=
  .start (Server.handlePeer crypto serverCert screenPx).run
    (Client.runOneSession crypto clientCert peerName).run

/-- A server with a pin waits for Hello while a client without one waits for the
first frame of the pairing. -/
theorem reaches_deadlock {serverCert clientCert : List UInt8}
    {serverFile clientFile : PinFile} {screenPx : UInt16 × UInt16} {peerName : String}
    {pin : PinHash} (serverPin : TruePin crypto serverFile clientCert (some pin))
    (clientPin : TruePin crypto clientFile serverCert none) :
    ∃ system, Duplex.Reaches (connecting crypto serverCert clientCert serverFile clientFile
      screenPx peerName) system ∧ system.Deadlocked := by
  have server : ∃ next, Trace (Server.handlePeer crypto serverCert screenPx).run
      (securing serverFile (some pin) clientCert) (.ask .readFrame next) := by
    have secured : Trace (Server.secureConnection crypto serverCert).run
        (securing serverFile (some pin) clientCert ++ []) (.done (.ok ())) :=
      trace_securing serverPin.loads (.here _)
    rw [List.append_nil] at secured
    exact ⟨_, List.append_nil (securing _ _ _) ▸ secured.exceptBind (.here _)⟩
  have client : ∃ next, Trace (Client.runOneSession crypto clientCert peerName).run
      (securing clientFile none serverCert ++ [⟨.codeProvider, .ok ""⟩])
        (.ask .readFrame next) := by
    have pairs : ∃ next, Trace (do
          orFail (fun _ => SessionEnd.closed)
            (← ExceptT.lift (Client.runClientPairingFlow crypto clientCert).run) :
          Flow crypto Client.ClientError (SessionEnd Client.ClientError) Unit).run
        [⟨.codeProvider, .ok ""⟩] (.ask .readFrame next) := by
      apply Exists.intro
      apply Trace.step
      exact .here _
    obtain ⟨next, pairs⟩ := pairs
    have secured : Trace (Client.secureConnection crypto clientCert).run
        (securing clientFile none serverCert ++ [⟨.codeProvider, .ok ""⟩])
          (.ask .readFrame next) :=
      trace_securing clientPin.loads pairs
    exact ⟨_, secured.bind_ask⟩
  obtain ⟨serverRest, serverTrace⟩ := server
  obtain ⟨clientRest, clientTrace⟩ := client
  have first := @Duplex.reaches_left _ _ _ (connecting crypto serverCert clientCert serverFile
    clientFile screenPx peerName) _ _ [] serverTrace (performs_securing serverPin) rfl
  have clientPerforms : ∀ event ∈ (securing clientFile none serverCert ++
      [⟨.codeProvider, .ok ""⟩] : List (PeerEvent crypto Client.ClientError)),
      (Client.settingUp crypto clientFile serverCert).Performs event := by
    intro event member
    rcases List.mem_append.mp member with securing | code
    · exact performs_securing clientPin event securing
    · rw [List.mem_singleton.mp code]
      exact performs_of_local trivial trivial
  let serverWaits : Duplex (Server.settingUp crypto serverFile clientCert)
      (Client.settingUp crypto clientFile serverCert) :=
    ⟨⟨.ask PeerOp.readFrame serverRest, [], securing serverFile (some pin) clientCert⟩,
      .start (Client.runOneSession crypto clientCert peerName).run⟩
  have second := @Duplex.reaches_right _ _ _ serverWaits _ _ [] clientTrace clientPerforms rfl
  exact ⟨_, first.trans second, ⟨rfl, PeerOp.readFrame, _, rfl, receives_iff.mpr rfl⟩,
    ⟨rfl, PeerOp.readFrame, _, rfl, receives_iff.mpr rfl⟩⟩

/-- From every pair of pin states, the two programs never wait for each other
with nothing in flight, exactly if not only the server has a pin. -/
theorem neverDeadlocks_iff (crypto : Crypto) (serverCert clientCert : List UInt8)
    (screenPx : UInt16 × UInt16) (peerName : String) (serverFile clientFile : PinFile)
    (serverPinned clientPinned : Option PinHash)
    (serverPin : TruePin crypto serverFile clientCert serverPinned)
    (clientPin : TruePin crypto clientFile serverCert clientPinned) :
    (connecting crypto serverCert clientCert serverFile clientFile screenPx
        peerName).NeverDeadlocks ↔
      ¬ (serverPinned.isSome ∧ clientPinned = none) := by
  constructor
  · rintro never ⟨hasPin, rfl⟩
    obtain ⟨pin, rfl⟩ := Option.isSome_iff_exists.mp hasPin
    obtain ⟨system, reaches, deadlocked⟩ :=
      @reaches_deadlock _ _ _ _ _ screenPx peerName _ serverPin clientPin
    exact never system reaches deadlocked
  · intro negotiated
    refine Duplex.neverDeadlocks (Server.keeps_handlePeer serverPin.loads)
      (Client.keeps_runOneSession clientPin.loads) ?_
    rintro ⟨sent, received⟩ _ _ leftReceives rightReceives serverReads clientReads
    rcases clientReads (receives_iff.mp rightReceives) with clientAhead | ⟨unpinned, atStart⟩
    · rcases serverReads (receives_iff.mp leftReceives) with serverAhead | atHello
      · simp only at clientAhead serverAhead
        omega
      · cases serverPinned <;> cases atHello <;> cases clientAhead
    · cases atStart
      rcases serverReads (receives_iff.mp leftReceives) with serverAhead | atHello
      · cases serverAhead
      · cases serverPinned with
        | some pin => exact negotiated ⟨rfl, unpinned⟩
        | none => cases atHello

theorem truePin_missing (peerCertDer : List UInt8) :
    TruePin crypto .missing peerCertDer none where
  loads := rfl
  isTrue := nofun

theorem truePin_stored (peerCertDer : List UInt8) :
    TruePin crypto (.text (PinStore.contents (pinHashOf crypto.sha256 peerCertDer))) peerCertDer
      (some (pinHashOf crypto.sha256 peerCertDer)) where
  loads := PinStore.load_contents _
  isTrue _ stored := (Option.some.inj stored).symm

/-- Two machines that have not paired yet. -/
theorem neverDeadlocks_iff_missing :
    (connecting mockCrypto serverCert clientCert .missing .missing (1920, 1080)
      "client").NeverDeadlocks := by
  refine (neverDeadlocks_iff mockCrypto serverCert clientCert (1920, 1080) "client" .missing
    .missing none none (truePin_missing _) (truePin_missing _)).mpr ?_
  exact fun onlyServer => absurd onlyServer.1 (by decide)

/-- The pin of the client's certificate is on the server's disk, and the client
has none. -/
theorem deadlocks_without_client_pin :
    ¬ ∀ (serverFile clientFile : PinFile) (serverPinned clientPinned : Option PinHash),
      TruePin mockCrypto serverFile clientCert serverPinned →
      TruePin mockCrypto clientFile serverCert clientPinned →
      (connecting mockCrypto serverCert clientCert serverFile clientFile (1920, 1080)
        "client").NeverDeadlocks := by
  intro never
  obtain ⟨system, reaches, deadlocked⟩ :=
    @reaches_deadlock mockCrypto serverCert clientCert _ _ (1920, 1080) "client" _
      (truePin_stored clientCert) (truePin_missing serverCert)
  exact never _ _ _ _ (truePin_stored clientCert) (truePin_missing serverCert) system reaches
    deadlocked

end Kmwarp.Net
