import Kmwarp.Net.Reflection
import Kmwarp.Net.SecureConnection

/-!
# Failed pairings

The pin is stored before the peer has confirmed, so a pairing that fails behind
the store leaves a pin on disk.
-/

namespace Kmwarp.Net

open Foundation Wire Tls Pairing Interaction

variable {crypto : Crypto} {ε surface : Type} {file : PinFile}
  {events : List (PeerEvent crypto ε)}

/-- The pin file after the events of a flow that is alone with it. -/
def pinFileAfter (file : PinFile) (events : List (PeerEvent crypto ε)) : PinFile :=
  Timeline.contents pinAccess file (Timeline.undisturbed events)

/-- If the flow fails, the pin file is what it was before. -/
def KeepsPin (file : PinFile) (events : List (PeerEvent crypto ε))
    (result : Except (PairingFlowError ε surface) Unit) : Prop :=
  ∀ error, result = .error error → pinFileAfter file events = file

/-- A frame cannot be written or read, or is not the confirmation. -/
def FailsToConfirm : PeerEvent crypto ε → Prop
  | ⟨.writeFrame _, .error _⟩ | ⟨.readFrame, .error _⟩ => True
  | ⟨.readFrame, .ok msg⟩ => msg ≠ .pairAccepted
  | _ => False

/-- Behind a certificate whose pin is not the one on disk, the store succeeds and
then the exchange of confirmations fails. -/
def LeavesPin (file : PinFile) (events : List (PeerEvent crypto ε)) : Prop :=
  ∃ before certDer hmac pin after,
    events = before ++ [⟨.readFrame, .ok (.pairCertExchange certDer hmac)⟩] ++
        ⟨.storePin pin, .ok ()⟩ :: after ∧
      file ≠ .text (PinStore.contents (pinHashOf crypto.sha256 certDer)) ∧
        ∃ event ∈ after, FailsToConfirm event

def StoresNothing (events : List (PeerEvent crypto ε)) : Prop :=
  ∀ pin, ⟨.storePin pin, .ok ()⟩ ∉ events

theorem storesNothing_append {before after : List (PeerEvent crypto ε)}
    (early : StoresNothing before) (late : StoresNothing after) :
    StoresNothing (before ++ after) := by
  intro pin member
  rcases List.mem_append.mp member with inBefore | inAfter
  · exact early pin inBefore
  · exact late pin inAfter

theorem storesNothing_of_within {allowed : PeerOp → Prop} {α : Type}
    {program rest : Interaction (PeerReply crypto ε) α}
    (within : program.Within allowed) (noStore : ∀ pin, ¬ allowed (.storePin pin))
    (trace : Trace program events rest) : StoresNothing events :=
  fun pin member => noStore pin (allowed_of_mem within trace member)

theorem pinFileAfter_append (before after : List (PeerEvent crypto ε)) :
    pinFileAfter file (before ++ after) = pinFileAfter (pinFileAfter file before) after := by
  rw [pinFileAfter, Timeline.undisturbed, List.map_append, Timeline.contents_append]
  rfl

theorem pinFileAfter_eq_of_storesNothing (nothing : StoresNothing events) :
    pinFileAfter file events = file := by
  induction events with
  | nil => rfl
  | cons event events ih =>
      have later : StoresNothing events :=
        fun pin member => nothing pin (List.mem_cons_of_mem _ member)
      change Timeline.contents pinAccess file (.inr event :: Timeline.undisturbed events) =
        file
      rw [Timeline.contents]
      split
      · rename_i written isWrite
        obtain ⟨op, reply⟩ := event
        cases op
        case storePin pin =>
          cases reply with
          | error error => cases isWrite
          | ok => exact absurd List.mem_cons_self (nothing pin)
        all_goals cases isWrite
      · exact ih later

theorem not_leavesPin_of_storesNothing (nothing : StoresNothing events) :
    ¬ LeavesPin file events := by
  rintro ⟨early, certDer, hmac, pin, late, rfl, _⟩
  exact nothing pin (List.mem_append_right _ List.mem_cons_self)

/-- The events of a flow whose only store is that of a certificate just received. -/
structure StoresOnce (events before after : List (PeerEvent crypto ε))
    (certDer : List UInt8) : Prop where
  split : ∃ hmac, events =
    before ++ [⟨.readFrame, .ok (.pairCertExchange certDer hmac)⟩] ++
      ⟨.storePin (pinHashOf crypto.sha256 certDer), .ok ()⟩ :: after
  early : StoresNothing before
  late : StoresNothing after

section StoresOnce

variable {before after : List (PeerEvent crypto ε)} {certDer : List UInt8}

theorem StoresOnce.pinFileAfter_eq (once : StoresOnce events before after certDer) :
    pinFileAfter file events =
      .text (PinStore.contents (pinHashOf crypto.sha256 certDer)) := by
  obtain ⟨hmac, rfl⟩ := once.split
  rw [pinFileAfter_append]
  exact pinFileAfter_eq_of_storesNothing once.late

theorem StoresOnce.leavesPin_iff (once : StoresOnce events before after certDer) :
    LeavesPin file events ↔
      file ≠ .text (PinStore.contents (pinHashOf crypto.sha256 certDer)) ∧
        ∃ event ∈ after, FailsToConfirm event := by
  obtain ⟨hmac, rfl⟩ := once.split
  constructor
  · rintro ⟨otherBefore, otherCert, otherHmac, otherPin, otherAfter, split, other, fails⟩
    have notRead : StoresNothing
        [(⟨.readFrame, .ok (.pairCertExchange certDer hmac)⟩ : PeerEvent crypto ε)] := by
      simp [StoresNothing]
    obtain ⟨sameBefore, _, rfl⟩ := (List.append_cons_inj_of_notMem
      (storesNothing_append once.early notRead otherPin) (once.late otherPin)).mp split
    have sameRead := (List.append_inj' sameBefore rfl).2
    cases sameRead
    exact ⟨other, fails⟩
  · rintro ⟨other, fails⟩
    exact ⟨before, certDer, hmac, _, after, rfl, other, fails⟩

end StoresOnce

/-- Either nothing is stored, or the flow fails exactly when the exchange of
confirmations behind the store does. -/
theorem trace_pinPeerCert_done {peerCertDer : List UInt8}
    {result : Except (PairingFlowError ε surface) Unit}
    (trace : Trace (pinPeerCert crypto peerCertDer).run events (.done result)) :
    StoresNothing events ∨
      ∃ after, events = ⟨.storePin (pinHashOf crypto.sha256 peerCertDer), .ok ()⟩ :: after ∧
        StoresNothing after ∧
          ((∃ event ∈ after, FailsToConfirm event) ↔ ∃ error, result = .error error) := by
  cases trace with
  | @step _ _ stored _ _ afterStore =>
      cases stored with
      | error error =>
          cases afterStore
          exact .inl (by simp [StoresNothing])
      | ok =>
          right
          refine ⟨_, rfl, ?_⟩
          cases afterStore with
          | @step _ _ written _ _ afterWrite =>
              cases written with
              | error error =>
                  cases afterWrite
                  simp [StoresNothing, FailsToConfirm]
              | ok =>
                  cases afterWrite with
                  | @step _ _ read _ _ afterRead =>
                      cases read with
                      | error error =>
                          cases afterRead
                          simp [StoresNothing, FailsToConfirm]
                      | ok msg =>
                          cases msg <;> cases afterRead <;>
                            simp [StoresNothing, FailsToConfirm]

/-- Only the last part of a flow stores. -/
theorem trace_pairingFlow_done
    {derive : Flow crypto ε (PairingFlowError ε surface) SharedKey}
    {certDer : List UInt8} (preliminary : derive.run.Within PeerOp.Preliminary)
    {result : Except (PairingFlowError ε surface) Unit}
    (trace : Trace (derive >>= fun key =>
      exchangeCerts crypto certDer key >>= pinPeerCert crypto).run events (.done result)) :
    StoresNothing events ∨
      ∃ before after peerCertDer, StoresOnce events before after peerCertDer ∧
        ((∃ event ∈ after, FailsToConfirm event) ↔ ∃ error, result = .error error) := by
  have derivesOnly : ∀ {before rest}, Trace derive.run before rest → StoresNothing before :=
    storesNothing_of_within preliminary fun _ => id
  have exchangesOnly : ∀ {key exchange rest},
      Trace (exchangeCerts crypto certDer key :
        Flow crypto ε (PairingFlowError ε surface) (List UInt8)).run exchange rest →
      StoresNothing exchange := by
    intro key exchange rest exchanges pin
    have within : (exchangeCerts crypto certDer key :
        Flow crypto ε (PairingFlowError ε surface) (List UInt8)).run.Within
          fun op => op ≠ .storePin pin :=
      within_exchangeCerts nofun nofun fun _ => nofun
    exact fun member => allowed_of_mem within exchanges member rfl
  rcases trace_exceptBind trace with ⟨_, _, _, _, pending⟩ | ⟨_, failed, _⟩ |
    ⟨key, derivation, _, rfl, derived, afterDerive⟩
  · cases pending
  · exact .inl (derivesOnly failed)
  rcases trace_exceptBind afterDerive with ⟨_, _, _, _, pending⟩ | ⟨_, failed, _⟩ |
    ⟨peerCertDer, exchange, pinning, rfl, exchanged, pinned⟩
  · cases pending
  · exact .inl (storesNothing_append (derivesOnly derived) (exchangesOnly failed))
  rcases trace_pinPeerCert_done pinned with nothing | ⟨after, rfl, nothing, fails⟩
  · exact .inl (storesNothing_append (derivesOnly derived)
      (storesNothing_append (exchangesOnly exchanged) nothing))
  rcases trace_exchangeCerts exchanged with ⟨_, same, rfl⟩ | ⟨notDone, _⟩
  · cases same
    refine .inr ⟨derivation ++ [⟨.writeFrame (certFrame crypto key certDer), .ok ()⟩], after,
      peerCertDer, ⟨⟨certHmac crypto key peerCertDer, ?_⟩, ?_, nothing⟩, fails⟩
    · simp [certFrame]
    · exact storesNothing_append (derivesOnly derived) (by simp [StoresNothing])
  · exact absurd rfl (notDone peerCertDer)

/-- A flow keeps the pin on disk exactly when it does not leave one. -/
theorem keepsPin_iff {derive : Flow crypto ε (PairingFlowError ε surface) SharedKey}
    {certDer : List UInt8} (preliminary : derive.run.Within PeerOp.Preliminary)
    {result : Except (PairingFlowError ε surface) Unit}
    (trace : Trace (derive >>= fun key =>
      exchangeCerts crypto certDer key >>= pinPeerCert crypto).run events (.done result)) :
    KeepsPin file events result ↔ ¬ LeavesPin file events := by
  rcases trace_pairingFlow_done preliminary trace with
    nothing | ⟨before, after, peerCertDer, once, fails⟩
  · exact iff_of_true (fun _ _ => pinFileAfter_eq_of_storesNothing nothing)
      (not_leavesPin_of_storesNothing nothing)
  · rw [once.leavesPin_iff, fails, KeepsPin, once.pinFileAfter_eq]
    constructor
    · rintro keeps ⟨other, error, failed⟩
      exact other (keeps error failed).symm
    · intro notLeft error failed
      by_contra other
      exact notLeft ⟨fun same => other same.symm, error, failed⟩

/-- In every run of either flow to its result, the pin on disk survives a failure
exactly if no pin was stored before the failure that was not there already. -/
theorem pin_kept_iff_not_left (crypto : Crypto) (certDer : List UInt8) (file : PinFile) :
    (∀ onCode events result,
      Trace (Server.runServerPairingFlow crypto certDer onCode).run events (.done result) →
        (KeepsPin file events result ↔ ¬ LeavesPin file events)) ∧
      ∀ events result,
        Trace (Client.runClientPairingFlow crypto certDer).run events (.done result) →
          (KeepsPin file events result ↔ ¬ LeavesPin file events) :=
  ⟨fun onCode _ _ trace =>
      keepsPin_iff (Server.within_serverSharedKey onCode fun _ preliminary _ => preliminary)
        trace,
    fun _ _ trace =>
      keepsPin_iff (Client.within_clientSharedKey fun _ preliminary _ => preliminary) trace⟩

/-- Both flows leave the disk clean when they refuse a tag made up without the
key. -/
theorem pin_kept_iff_not_left_guess :
    KeepsPin .missing (serverStart ++ guess)
        (.error (.pairing .hmacVerifyFailed) : Except Server.ServerPairingError Unit) ∧
      KeepsPin .missing (clientStart ++ guess)
        (.error (.pairing .hmacVerifyFailed) : Except Client.ClientPairingError Unit) := by
  constructor
  · apply ((pin_kept_iff_not_left mockCrypto mockCert .missing).1 true
      (serverStart ++ guess) _ trace_server_guess).mpr
    exact not_leavesPin_of_storesNothing (by simp [StoresNothing, serverStart, guess])
  · apply ((pin_kept_iff_not_left mockCrypto mockCert .missing).2
      (clientStart ++ guess) _ trace_client_guess).mpr
    exact not_leavesPin_of_storesNothing (by simp [StoresNothing, clientStart, guess])

/-! ## The connection is lost behind the store -/

def peerCert : List UInt8 := [0x30, 2]

/-- An honest peer sends its certificate, which is pinned, and then the
connection is closed. -/
def lostBehindStore {ε : Type} (disconnected : ε) : List (PeerEvent mockCrypto ε) :=
  [⟨.readFrame, .ok (certFrame mockCrypto mockKey peerCert)⟩,
    ⟨.storePin (toBytes32 peerCert), .ok ()⟩, ⟨.writeFrame .pairAccepted, .ok ()⟩,
    ⟨.readFrame, .error disconnected⟩]

theorem pinFileAfter_lostBehindStore {ε : Type} (disconnected : ε)
    {start : List (PeerEvent mockCrypto ε)} :
    pinFileAfter .missing (start ++ lostBehindStore disconnected) ≠ .missing := by
  rw [pinFileAfter_append]
  exact nofun

/-- Each of the two flows fails and leaves a pin where there was none. -/
theorem not_keepsPin_lostBehindStore :
    ¬ (∀ onCode events result,
        Trace (Server.runServerPairingFlow mockCrypto mockCert onCode).run events
          (.done result) → KeepsPin .missing events result) ∧
      ¬ ∀ events result,
        Trace (Client.runClientPairingFlow mockCrypto mockCert).run events
          (.done result) → KeepsPin .missing events result := by
  constructor
  · intro keeps
    refine pinFileAfter_lostBehindStore Server.ServerError.disconnected
      (keeps true (serverStart ++ lostBehindStore .disconnected)
        (.error (.connection .disconnected)) ?_ _ rfl)
    unfold serverStart lostBehindStore
    repeat (first | exact Trace.here _ | apply Trace.step)
  · intro keeps
    refine pinFileAfter_lostBehindStore Client.ClientError.disconnected
      (keeps (clientStart ++ lostBehindStore .disconnected)
        (.error (.connection .disconnected)) ?_ _ rfl)
    unfold clientStart lostBehindStore
    repeat (first | exact Trace.here _ | apply Trace.step)

end Kmwarp.Net
