import Kmwarp.Client.Pairing
import Kmwarp.Server.Pairing

/-!
# Pairing without the code

A peer that does not know the code cannot make a certificate frame that
verifies under the derived key, but it can send back the one the flow has just
sent, or pass on one that another holder of the key has made.  The tag says
nothing about the sender, so such a frame is accepted.
-/

namespace Kmwarp.Net

open Foundation Wire Tls Pairing Interaction

section Flow

variable {crypto : Crypto} {ε surface : Type} {events : List (PeerEvent crypto ε)}
  {rest : Interaction (PeerReply crypto ε) (Except (PairingFlowError ε surface) Unit)}

/-- So far no pin is stored and the flow has not returned Ok. -/
def Refuses (events : List (PeerEvent crypto ε))
    (rest : Interaction (PeerReply crypto ε) (Except (PairingFlowError ε surface) Unit)) :
    Prop :=
  (∀ pin, .storePin pin ∉ calls events rest) ∧ rest ≠ .done (.ok ())

/-- The peer is not a holder of the key.  `others` are the pairs of a certificate and a
tag that the holders of the key besides the flow have made with it. -/
structure Unforgeable (derived : List (PeerEvent crypto ε) → SharedKey → Prop)
    (others : List UInt8 → Bytes32 → Prop) (events : List (PeerEvent crypto ε)) :
    Prop where
  /-- The peer presents a pair that verifies only if a holder has made that very pair:
  the flow, which has sent it before, or another one. -/
  presented : ∀ before certDer after key,
    events = before ++ ⟨.readFrame, .ok (certFrame crypto key certDer)⟩ :: after →
      derived before key →
        ⟨.writeFrame (certFrame crypto key certDer), .ok ()⟩ ∈ before ∨
          others certDer (certHmac crypto key certDer)
  made : ∀ before certDer hmac after key,
    events = before ++ ⟨.readFrame, .ok (.pairCertExchange certDer hmac)⟩ :: after →
      derived before key → others certDer hmac → hmac = certHmac crypto key certDer

/-- The peer answers the flow's certificate frame with one that a holder of the key has
made: with the flow's own, or with that of another holder. -/
def PassesOn (others : List UInt8 → Bytes32 → Prop) (events : List (PeerEvent crypto ε)) :
    Prop :=
  ∃ before certDer hmac after ownDer ownHmac,
    events = before ++ ⟨.readFrame, .ok (.pairCertExchange certDer hmac)⟩ :: after ∧
      ⟨.writeFrame (.pairCertExchange ownDer ownHmac), .ok ()⟩ ∈ before ∧
        (certDer = ownDer ∧ hmac = ownHmac ∨ others certDer hmac)

/-- The operations before a pin is stored; `own` is the certificate frame that
may be sent. -/
def SendsOnly (own : Message) : PeerOp → Prop
  | .writeFrame (.pairCertExchange certDer hmac) => .pairCertExchange certDer hmac = own
  | .storePin _ => False
  | _ => True

/-- While the derivation of the key goes on, the peer is refused and has nothing
to answer. -/
theorem refuses_iff_of_preliminary {others : List UInt8 → Bytes32 → Prop}
    (preliminary : ∀ op ∈ calls events rest, op.Preliminary)
    (notDone : rest ≠ .done (.ok ())) : Refuses events rest ↔ ¬ PassesOn others events := by
  have refuses : Refuses events rest :=
    ⟨fun pin called => preliminary (.storePin pin) called, notDone⟩
  refine iff_of_true refuses ?_
  rintro ⟨before, certDer, hmac, after, ownDer, ownHmac, rfl, sent, _⟩
  exact preliminary (.writeFrame (.pairCertExchange ownDer ownHmac))
    (mem_calls (List.mem_append_left _ sent))

/-- The same while the certificates are exchanged and none has verified. -/
theorem refuses_iff_of_exchanging {before after : List (PeerEvent crypto ε)}
    {key : SharedKey} {certDer : List UInt8} {others : List UInt8 → Bytes32 → Prop}
    (preliminary : ∀ event ∈ before, PeerOp.Preliminary event.1)
    (sendsOnly : ∀ op ∈ calls after rest, SendsOnly (certFrame crypto key certDer) op)
    (noneVerifies : ∀ peerCertDer,
      ⟨.readFrame, .ok (certFrame crypto key peerCertDer)⟩ ∉ after)
    (made : ∀ readBefore peerCertDer hmac readAfter,
      after =
          readBefore ++ ⟨.readFrame, .ok (.pairCertExchange peerCertDer hmac)⟩ :: readAfter →
        others peerCertDer hmac → hmac = certHmac crypto key peerCertDer)
    (notDone : rest ≠ .done (.ok ())) :
    Refuses (before ++ after) rest ↔ ¬ PassesOn others (before ++ after) := by
  have refuses : Refuses (before ++ after) rest := by
    refine ⟨fun pin called => ?_, notDone⟩
    rw [calls_append] at called
    rcases List.mem_append.mp called with early | late
    · obtain ⟨event, member, same⟩ := List.mem_map.mp early
      have := preliminary event member
      rw [same] at this
      exact this
    · exact sendsOnly (.storePin pin) late
  refine iff_of_true refuses ?_
  rintro ⟨sentBefore, peerCertDer, hmac, readAfter, ownDer, ownHmac, split, sent, isMade⟩
  rcases List.append_eq_append_iff.mp split with
    ⟨between, rfl, sameAfter⟩ | ⟨between, rfl, sameAfter⟩
  · -- the frame is read during the exchange, so the flow's own has been sent there
    rcases List.mem_append.mp sent with early | late
    · exact preliminary _ early
    · have tagged : hmac = certHmac crypto key peerCertDer := by
        rcases isMade with ⟨rfl, rfl⟩ | other
        · have own : .pairCertExchange peerCertDer hmac = certFrame crypto key certDer :=
            sendsOnly (.writeFrame (.pairCertExchange peerCertDer hmac))
              (mem_calls (sameAfter ▸ List.mem_append_left _ late))
          cases own
          rfl
        · exact made between peerCertDer hmac readAfter sameAfter other
      apply noneVerifies peerCertDer
      rw [sameAfter, certFrame, ← tagged]
      exact List.mem_append_right _ List.mem_cons_self
  · exact preliminary _ (List.mem_append_left _ sent)

/-- Once the peer's certificate is verified, the pin store is called. -/
theorem storePin_called {peerCertDer : List UInt8}
    (trace : Trace (pinPeerCert crypto peerCertDer).run events rest) :
    .storePin (pinHashOf crypto.sha256 peerCertDer) ∈ calls events rest := by
  cases trace with
  | here => exact List.mem_singleton_self _
  | step later => exact List.mem_cons_self

/-- A flow that derives its key before it sends a certificate or stores a pin
refuses an ignorant peer exactly when that peer passes on no frame of a holder. -/
theorem refuses_iff
    {derive : Flow crypto ε (PairingFlowError ε surface) SharedKey}
    {certDer : List UInt8} {derived : List (PeerEvent crypto ε) → SharedKey → Prop}
    {others : List UInt8 → Bytes32 → Prop}
    (preliminary : derive.run.Within PeerOp.Preliminary)
    (derives : ∀ key before later, Trace derive.run before (.done (.ok key)) →
      derived (before ++ later) key)
    (trace : Trace (derive >>= fun key =>
      exchangeCerts crypto certDer key >>= pinPeerCert crypto).run events rest)
    (unforgeable : Unforgeable derived others events) :
    Refuses events rest ↔ ¬ PassesOn others events := by
  rcases trace_exceptBind trace with ⟨op, _, _, stopped, rfl⟩ | ⟨error, failed, rfl⟩ |
    ⟨key, before, after, rfl, keyed, exchanging⟩
  · have asked := allowed_of_within preliminary stopped
    exact refuses_iff_of_preliminary asked nofun
  · have asked := allowed_of_within preliminary failed
    exact refuses_iff_of_preliminary asked nofun
  · have early : ∀ event ∈ before, PeerOp.Preliminary event.1 :=
      fun event member => allowed_of_mem preliminary keyed member
    have sendsOnly : (exchangeCerts crypto certDer key : Flow crypto ε
        (PairingFlowError ε surface) (List UInt8)).run.Within
          (SendsOnly (certFrame crypto key certDer)) :=
      within_exchangeCerts rfl trivial fun _ => trivial
    have made : ∀ readBefore peerCertDer hmac readAfter,
        after = readBefore ++
            ⟨.readFrame, .ok (.pairCertExchange peerCertDer hmac)⟩ :: readAfter →
          others peerCertDer hmac → hmac = certHmac crypto key peerCertDer := by
      rintro readBefore peerCertDer hmac readAfter rfl
      exact unforgeable.made (before ++ readBefore) peerCertDer hmac readAfter key
        (List.append_assoc ..).symm (derives key before readBefore keyed)
    rcases trace_exceptBind exchanging with ⟨op, _, _, stopped, rfl⟩ |
      ⟨error, failed, rfl⟩ | ⟨peerCertDer, exchange, pinning, rfl, exchanged, pinned⟩
    · have asked := allowed_of_within sendsOnly stopped
      rcases trace_exchangeCerts stopped with ⟨_, same, _⟩ | ⟨_, noneVerifies⟩
      · cases same
      · exact refuses_iff_of_exchanging early asked noneVerifies made nofun
    · have asked := allowed_of_within sendsOnly failed
      rcases trace_exchangeCerts failed with ⟨_, same, _⟩ | ⟨_, noneVerifies⟩
      · cases same
      · exact refuses_iff_of_exchanging early asked noneVerifies made nofun
    · rcases trace_exchangeCerts exchanged with ⟨_, same, rfl⟩ | ⟨notDone, _⟩
      · cases same
        let readBefore := before ++ [⟨.writeFrame (certFrame crypto key certDer), .ok ()⟩]
        have split : before ++ ([⟨.writeFrame (certFrame crypto key certDer), .ok ()⟩,
              ⟨.readFrame, .ok (certFrame crypto key peerCertDer)⟩] ++ pinning) =
            readBefore ++ ⟨.readFrame, .ok (certFrame crypto key peerCertDer)⟩ :: pinning := by
          simp [readBefore]
        have called := storePin_called pinned
        have passesOn : PassesOn others (before ++
            ([⟨.writeFrame (certFrame crypto key certDer), .ok ()⟩,
              ⟨.readFrame, .ok (certFrame crypto key peerCertDer)⟩] ++ pinning)) := by
          rcases unforgeable.presented readBefore peerCertDer pinning key split
            (derives key before _ keyed) with sent | other
          · exact ⟨readBefore, peerCertDer, _, pinning, _, _, split, sent, .inl ⟨rfl, rfl⟩⟩
          · exact ⟨readBefore, peerCertDer, _, pinning, certDer, _, split,
              List.mem_append_right _ (List.mem_singleton_self _), .inr other⟩
        refine iff_of_false (fun refuses => ?_) (not_not_intro passesOn)
        apply refuses.1 (pinHashOf crypto.sha256 peerCertDer)
        rw [calls_append, calls_append]
        exact List.mem_append_right _ (List.mem_append_right _ called)
      · exact absurd rfl (notDone peerCertDer)

/-- Nothing is forged if each certificate frame that verifies comes after the flow's own
one, and is a copy of it or made by another holder. -/
theorem unforgeable_append {derived : List (PeerEvent crypto ε) → SharedKey → Prop}
    {others : List UInt8 → Bytes32 → Prop} {before after : List (PeerEvent crypto ε)}
    {own : Message}
    (noneRead : ∀ certDer hmac, ⟨.readFrame, .ok (.pairCertExchange certDer hmac)⟩ ∉ before)
    (sent : ⟨.writeFrame own, .ok ()⟩ ∈ before)
    (presented : ∀ readBefore key certDer, readBefore <+: before ++ after →
      derived readBefore key → ⟨.readFrame, .ok (certFrame crypto key certDer)⟩ ∈ after →
        certFrame crypto key certDer = own ∨ others certDer (certHmac crypto key certDer))
    (made : ∀ readBefore key certDer hmac, readBefore <+: before ++ after →
      derived readBefore key →
        ⟨.readFrame, .ok (.pairCertExchange certDer hmac)⟩ ∈ after →
        others certDer hmac → hmac = certHmac crypto key certDer) :
    Unforgeable derived others (before ++ after) := by
  have readAfterwards : ∀ readBefore certDer hmac readAfter,
      before ++ after =
          readBefore ++ ⟨.readFrame, .ok (.pairCertExchange certDer hmac)⟩ :: readAfter →
        ⟨.readFrame, .ok (.pairCertExchange certDer hmac)⟩ ∈ after ∧
          ⟨.writeFrame own, .ok ()⟩ ∈ readBefore := by
    intro readBefore certDer hmac readAfter split
    rcases List.append_eq_append_iff.mp split with
      ⟨between, rfl, sameAfter⟩ | ⟨between, rfl, sameAfter⟩
    · exact ⟨sameAfter ▸ by simp, List.mem_append_left _ sent⟩
    · cases between with
      | nil =>
          rw [List.nil_append] at sameAfter
          exact ⟨sameAfter ▸ List.mem_cons_self, by simpa using sent⟩
      | cons event between =>
          obtain ⟨rfl, rfl⟩ := List.cons_eq_cons.mp sameAfter
          exact absurd (by simp) (noneRead certDer hmac)
  constructor
  · intro readBefore certDer readAfter key split isDerived
    obtain ⟨read, sentBefore⟩ := readAfterwards _ _ _ _ split
    rcases presented readBefore key certDer ⟨_, split.symm⟩ isDerived read with same | other
    · exact .inl (same ▸ sentBefore)
    · exact .inr other
  · intro readBefore certDer hmac readAfter key split isDerived
    obtain ⟨read, _⟩ := readAfterwards _ _ _ _ split
    exact made readBefore key certDer hmac ⟨_, split.symm⟩ isDerived read

end Flow

/-! ## Both flows -/

/-- A peer that does not know the code is refused by both flows exactly as long
as it does not answer with a certificate frame that a holder of the key has made, be it
the flow itself or another one. -/
theorem pairing_refused_iff_not_passesOn (crypto : Crypto) (certDer : List UInt8)
    (others : List UInt8 → Bytes32 → Prop) :
    (∀ onCode events rest,
      Trace (Server.runServerPairingFlow crypto certDer onCode).run events rest →
        Unforgeable (Server.Derived crypto) others events →
          (Refuses events rest ↔ ¬ PassesOn others events)) ∧
      ∀ events rest,
        Trace (Client.runClientPairingFlow crypto certDer).run events rest →
          Unforgeable (Client.Derived crypto) others events →
            (Refuses events rest ↔ ¬ PassesOn others events) := by
  constructor
  · intro onCode events rest trace unforgeable
    refine refuses_iff (Server.within_serverSharedKey onCode fun _ preliminary _ =>
      preliminary) ?_ trace unforgeable
    intro key before later derives
    obtain ⟨random, seed, msgB, rfl, finished⟩ := Server.trace_serverSharedKey_ok derives
    exact ⟨formatCode random, seed, msgB, by simp, by simp, by simp, finished⟩
  · intro events rest trace unforgeable
    refine refuses_iff (Client.within_clientSharedKey fun _ preliminary _ => preliminary)
      ?_ trace unforgeable
    intro key before later derives
    obtain ⟨code, msgA, seed, rfl, finished⟩ := Client.trace_clientSharedKey_ok derives
    exact ⟨code, seed, msgA, by simp, by simp, by simp, finished⟩

/-! ## Runs without the code -/

def mockCert : List UInt8 := [0x30, 1]

def mockFrame : Message := certFrame mockCrypto mockKey mockCert

/-- The certificate of an honest program that was given the code. -/
def holderCert : List UInt8 := [0x30, 2]

/-- The one pair that it makes. -/
def holderPair (certDer : List UInt8) (hmac : Bytes32) : Prop :=
  certDer = holderCert ∧ hmac = certHmac mockCrypto mockKey holderCert

/-- A server up to its own certificate, against a peer that answers with an
element of its own choice, or with that of an honest client. -/
def serverStart : List (PeerEvent mockCrypto Server.ServerError) :=
  [⟨.getrandom, .ok 123456⟩, ⟨.displayCode "123456", .ok ()⟩, ⟨.onCode "123456", ()⟩,
    ⟨.spakeSeed, mockSeed 5⟩, ⟨.writeFrame (.pairSpakeA [0x41, 5]), .ok ()⟩,
    ⟨.readFrame, .ok (.pairSpakeB [0x42, 7])⟩, ⟨.writeFrame mockFrame, .ok ()⟩]

/-- The same for a client. -/
def clientStart : List (PeerEvent mockCrypto Client.ClientError) :=
  [⟨.codeProvider, .ok "123456"⟩, ⟨.readFrame, .ok (.pairSpakeA [0x41, 5])⟩,
    ⟨.spakeSeed, mockSeed 7⟩, ⟨.writeFrame (.pairSpakeB [0x42, 7]), .ok ()⟩,
    ⟨.writeFrame mockFrame, .ok ()⟩]

/-- The peer passes on the frame of a certificate and confirms: it reflects the flow's own
frame, or relays that of the other holder. -/
def passingOn {ε : Type} (certDer : List UInt8) : List (PeerEvent mockCrypto ε) :=
  [⟨.readFrame, .ok (certFrame mockCrypto mockKey certDer)⟩,
    ⟨.storePin (toBytes32 certDer), .ok ()⟩, ⟨.writeFrame .pairAccepted, .ok ()⟩,
    ⟨.readFrame, .ok .pairAccepted⟩]

/-- The peer makes up a tag. -/
def guess {ε : Type} : List (PeerEvent mockCrypto ε) :=
  [⟨.readFrame, .ok (.pairCertExchange mockCert (toBytes32 []))⟩,
    ⟨.writeFrame (.pairRejected RejectCode.hmacMismatch), .ok ()⟩]

theorem trace_server_guess :
    Trace (Server.runServerPairingFlow mockCrypto mockCert true).run (serverStart ++ guess)
      (.done (.error (.pairing .hmacVerifyFailed))) := by
  unfold serverStart guess
  repeat (first | exact Trace.here _ | apply Trace.step)

theorem trace_client_guess :
    Trace (Client.runClientPairingFlow mockCrypto mockCert).run (clientStart ++ guess)
      (.done (.error (.pairing .hmacVerifyFailed))) := by
  unfold clientStart guess
  repeat (first | exact Trace.here _ | apply Trace.step)

theorem sent_serverStart : ⟨.writeFrame mockFrame, .ok ()⟩ ∈ serverStart := by
  simp [serverStart]

theorem sent_clientStart : ⟨.writeFrame mockFrame, .ok ()⟩ ∈ clientStart := by
  simp [clientStart]

/-- The key of every run that goes on in this way. -/
theorem eq_mockKey_server {after before : List (PeerEvent mockCrypto Server.ServerError)}
    {key : SharedKey} (isPrefix : before <+: serverStart ++ after)
    (noneRead : ∀ msgB, ⟨.readFrame, .ok (.pairSpakeB msgB)⟩ ∉ after)
    (noneDisplayed : ∀ code, ⟨.displayCode code, .ok ()⟩ ∉ after)
    (noneDrawn : ∀ seed, ⟨.spakeSeed, seed⟩ ∉ after)
    (derived : Server.Derived mockCrypto before key) : key = mockKey := by
  obtain ⟨code, seed, msgB, displayed, drawn, read, finished⟩ := derived
  have sameCode : code = "123456" := by
    simpa [serverStart, noneDisplayed] using isPrefix.subset displayed
  have sameSeed : seed = mockSeed 5 := by
    simpa [serverStart, noneDrawn] using isPrefix.subset drawn
  have sameMsg : msgB = [0x42, 7] := by
    simpa [serverStart, noneRead] using isPrefix.subset read
  subst sameCode sameSeed sameMsg
  cases finished
  decide

theorem eq_mockKey_client {after before : List (PeerEvent mockCrypto Client.ClientError)}
    {key : SharedKey} (isPrefix : before <+: clientStart ++ after)
    (noneRead : ∀ msgA, ⟨.readFrame, .ok (.pairSpakeA msgA)⟩ ∉ after)
    (noneProvided : ∀ code, ⟨.codeProvider, .ok code⟩ ∉ after)
    (noneDrawn : ∀ seed, ⟨.spakeSeed, seed⟩ ∉ after)
    (derived : Client.Derived mockCrypto before key) : key = mockKey := by
  obtain ⟨code, seed, msgA, provided, drawn, read, finished⟩ := derived
  have sameCode : code = "123456" := by
    simpa [clientStart, noneProvided] using isPrefix.subset provided
  have sameSeed : seed = mockSeed 7 := by
    simpa [clientStart, noneDrawn] using isPrefix.subset drawn
  have sameMsg : msgA = [0x41, 5] := by
    simpa [clientStart, noneRead] using isPrefix.subset read
  subst sameCode sameSeed sameMsg
  cases finished
  decide

/-- What is passed on is the flow's own pair or that of the other holder. -/
theorem passingOn_made {ε : Type} {certDer : List UInt8}
    (made : certDer ∈ [mockCert, holderCert]) {readDer : List UInt8} {hmac : Bytes32}
    (read : (⟨.readFrame, .ok (.pairCertExchange readDer hmac)⟩ : PeerEvent mockCrypto ε) ∈
      passingOn certDer) :
    .pairCertExchange readDer hmac = mockFrame ∨ holderPair readDer hmac := by
  have same : readDer = certDer ∧ hmac = certHmac mockCrypto mockKey certDer := by
    simpa [passingOn, certFrame] using read
  obtain ⟨rfl, rfl⟩ := same
  simp only [List.mem_cons, List.not_mem_nil, or_false] at made
  rcases made with rfl | rfl
  · exact .inl rfl
  · exact .inr ⟨rfl, rfl⟩

theorem unforgeable_server_passingOn {certDer : List UInt8}
    (made : certDer ∈ [mockCert, holderCert]) :
    Unforgeable (Server.Derived mockCrypto) holderPair (serverStart ++ passingOn certDer) := by
  apply unforgeable_append (by simp [serverStart]) sent_serverStart
  · exact fun _ _ _ _ _ read => passingOn_made made read
  · rintro readBefore key _ _ isPrefix derived read ⟨rfl, rfl⟩
    rw [eq_mockKey_server isPrefix (by simp [passingOn, certFrame]) (by simp [passingOn])
      (by simp [passingOn]) derived]

theorem unforgeable_client_passingOn {certDer : List UInt8}
    (made : certDer ∈ [mockCert, holderCert]) :
    Unforgeable (Client.Derived mockCrypto) holderPair (clientStart ++ passingOn certDer) := by
  apply unforgeable_append (by simp [clientStart]) sent_clientStart
  · exact fun _ _ _ _ _ read => passingOn_made made read
  · rintro readBefore key _ _ isPrefix derived read ⟨rfl, rfl⟩
    rw [eq_mockKey_client isPrefix (by simp [passingOn, certFrame]) (by simp [passingOn])
      (by simp [passingOn]) derived]

/-- Each of the two flows takes a certificate that is passed on for the peer's. -/
def TakesPassedOn (certDer : List UInt8) : Prop :=
  ¬ (Trace (Server.runServerPairingFlow mockCrypto mockCert true).run
        (serverStart ++ passingOn certDer) (.done (.ok ())) →
      Unforgeable (Server.Derived mockCrypto) holderPair (serverStart ++ passingOn certDer) →
      Refuses (serverStart ++ passingOn certDer)
        (.done (.ok ()) : Interaction _ (Except Server.ServerPairingError Unit))) ∧
    ¬ (Trace (Client.runClientPairingFlow mockCrypto mockCert).run
        (clientStart ++ passingOn certDer) (.done (.ok ())) →
      Unforgeable (Client.Derived mockCrypto) holderPair (clientStart ++ passingOn certDer) →
      Refuses (clientStart ++ passingOn certDer)
        (.done (.ok ()) : Interaction _ (Except Client.ClientPairingError Unit)))

theorem takesPassedOn {certDer : List UInt8} (made : certDer ∈ [mockCert, holderCert]) :
    TakesPassedOn certDer := by
  constructor
  · intro refused
    refine (refused ?_ (unforgeable_server_passingOn made)).2 rfl
    simp only [List.mem_cons, List.not_mem_nil, or_false] at made
    rcases made with rfl | rfl <;>
      · unfold serverStart passingOn
        repeat (first | exact Trace.here _ | apply Trace.step)
  · intro refused
    refine (refused ?_ (unforgeable_client_passingOn made)).2 rfl
    simp only [List.mem_cons, List.not_mem_nil, or_false] at made
    rcases made with rfl | rfl <;>
      · unfold clientStart passingOn
        repeat (first | exact Trace.here _ | apply Trace.step)

/-- A flow takes its own certificate for the peer's, and that of an honest program for the
certificate of whoever relays it. -/
theorem not_refused_passingOn : TakesPassedOn mockCert ∧ TakesPassedOn holderCert :=
  ⟨takesPassedOn (by simp), takesPassedOn (by simp)⟩

theorem not_mem_guess {ε : Type} (certDer : List UInt8) :
    (⟨.readFrame, .ok (certFrame mockCrypto mockKey certDer)⟩ :
      PeerEvent mockCrypto ε) ∉ guess := by
  intro read
  have same : certDer = mockCert ∧ certHmac mockCrypto mockKey certDer = toBytes32 [] := by
    simpa [guess, certFrame] using read
  obtain ⟨rfl, forged⟩ := same
  revert forged
  decide

/-- The other holder has not made up the frame. -/
theorem not_holderPair_guess {ε : Type} {certDer : List UInt8} {hmac : Bytes32}
    (read : (⟨.readFrame, .ok (.pairCertExchange certDer hmac)⟩ : PeerEvent mockCrypto ε) ∈
      guess) : ¬ holderPair certDer hmac := by
  have madeUp : certDer = mockCert ∧ hmac = toBytes32 [] := by simpa [guess] using read
  obtain ⟨rfl, rfl⟩ := madeUp
  rintro ⟨same, _⟩
  revert same
  decide

/-- The frame made up is not the one sent. -/
theorem not_passesOn_guess {ε : Type} {before : List (PeerEvent mockCrypto ε)}
    (noneRead : ∀ certDer hmac,
      ⟨.readFrame, .ok (.pairCertExchange certDer hmac)⟩ ∉ before)
    (onlyOwn : ∀ certDer hmac,
      ⟨.writeFrame (.pairCertExchange certDer hmac), .ok ()⟩ ∈ before →
        .pairCertExchange certDer hmac = mockFrame) :
    ¬ PassesOn holderPair (before ++ guess) := by
  rintro ⟨sentBefore, certDer, hmac, readAfter, ownDer, ownHmac, split, sent, made⟩
  have read : ⟨.readFrame, .ok (.pairCertExchange certDer hmac)⟩ ∈ before ++ guess := by
    simp [split]
  have written : ⟨.writeFrame (.pairCertExchange ownDer ownHmac), .ok ()⟩ ∈
      before ++ guess := by
    rw [split]
    exact List.mem_append_left _ sent
  rcases List.mem_append.mp read with early | late
  · exact noneRead certDer hmac early
  · rcases made with ⟨rfl, rfl⟩ | other
    · have own : .pairCertExchange certDer hmac = mockFrame := by
        rcases List.mem_append.mp written with early | behind
        · exact onlyOwn certDer hmac early
        · simp [guess] at behind
      have madeUp : certDer = mockCert ∧ hmac = toBytes32 [] := by simpa [guess] using late
      obtain ⟨rfl, rfl⟩ := madeUp
      revert own
      decide
    · exact not_holderPair_guess late other

/-- Both flows refuse a tag made up without the key. -/
theorem pairing_refused_iff_not_passesOn_guess :
    Refuses (serverStart ++ guess)
        (.done (.error (.pairing .hmacVerifyFailed)) :
          Interaction _ (Except Server.ServerPairingError Unit)) ∧
      Refuses (clientStart ++ guess)
        (.done (.error (.pairing .hmacVerifyFailed)) :
          Interaction _ (Except Client.ClientPairingError Unit)) := by
  constructor
  · refine ((pairing_refused_iff_not_passesOn mockCrypto mockCert holderPair).1 true
      (serverStart ++ guess) _ trace_server_guess ?_).mpr ?_
    · apply unforgeable_append (by simp [serverStart]) sent_serverStart
      · intro readBefore key certDer isPrefix derived read
        have isMock := eq_mockKey_server isPrefix (by simp [guess]) (by simp [guess])
          (by simp [guess]) derived
        exact absurd (isMock ▸ read) (not_mem_guess certDer)
      · exact fun _ _ _ _ _ _ read other => absurd other (not_holderPair_guess read)
    · exact not_passesOn_guess (by simp [serverStart]) (by simp [serverStart])
  · refine ((pairing_refused_iff_not_passesOn mockCrypto mockCert holderPair).2
      (clientStart ++ guess) _ trace_client_guess ?_).mpr ?_
    · apply unforgeable_append (by simp [clientStart]) sent_clientStart
      · intro readBefore key certDer isPrefix derived read
        have isMock := eq_mockKey_client isPrefix (by simp [guess]) (by simp [guess])
          (by simp [guess]) derived
        exact absurd (isMock ▸ read) (not_mem_guess certDer)
      · exact fun _ _ _ _ _ _ read other => absurd other (not_holderPair_guess read)
    · exact not_passesOn_guess (by simp [clientStart]) (by simp [clientStart])

end Kmwarp.Net
