import Kmwarp.Net.PinnedPeer

/-!
# Pin mode

What a connection may do depends on the pin file it has read.  With a pin it
compares the certificate of the peer, with a file that spells no pin it is
refused, and only without a file does it accept every certificate and pair.
-/

namespace Kmwarp.Net

open Foundation Wire Tls Pairing Interaction

/-- The operations of the Hello exchange. -/
def PeerOp.OfHello : PeerOp → Prop
  | .readFrame | .writeFrame _ => True
  | _ => False

/-- What a connection may ask for once it has seen this pin file. -/
def pinAllows : Option PinFile → PeerOp → Prop
  | none, .setNodelay | none, .readPinFile => True
  | none, _ => False
  | some _, .setNodelay | some _, .readPinFile => False
  | some file, .buildConfig pinned => PinStore.load file = .ok pinned
  | some file, .handshake verifier =>
      ∃ pinned, PinStore.load file = .ok pinned ∧ verifier = CertVerifier.ofPinned pinned
  | some file, .storePin _ => file = .missing
  | some file, _ => ∃ pinned, PinStore.load file = .ok pinned

section PinMode

variable {crypto : Crypto} {ε surface α : Type}

/-- The monitor follows the pin file the connection has read. -/
def pinMode : Monitor (PeerReply crypto ε) (Option PinFile) where
  possible _ := True
  advance seen event :=
    match event with
    | ⟨.readPinFile, file⟩ => some file
    | _ => seen
  allowed := pinAllows

/-- A file that cannot be loaded closes the connection. -/
def Refused (seen : Option PinFile) (result : Except (SessionEnd ε) α) : Prop :=
  ∀ file, seen = some file → (∀ pinned, PinStore.load file ≠ .ok pinned) →
    result = .error .closed

theorem advance_of_behindHandshake {seen : Option PinFile} {op : PeerOp}
    (behind : op.BehindHandshake) (reply : PeerReply crypto ε op) :
    pinMode.advance seen ⟨op, reply⟩ = seen := by
  cases op <;> first | rfl | cases behind

theorem refused_of_loads {file : PinFile} {pinned : Option PinHash}
    (loads : PinStore.load file = .ok pinned) (result : Except (SessionEnd ε) α) :
    Refused (some file) result := by
  rintro _ ⟨⟩ corrupt
  exact absurd loads (corrupt pinned)

/-- What is asked for behind the handshake needs a pin, or that there is no file. -/
theorem pinAllows_of_missing {op : PeerOp} (behind : op.BehindHandshake) :
    pinAllows (some .missing) op := by
  cases op <;> first | exact behind.elim | exact ⟨none, rfl⟩ | rfl

theorem pinAllows_of_loads {file : PinFile} {pinned : Option PinHash} {op : PeerOp}
    (loads : PinStore.load file = .ok pinned) (ofHello : op.OfHello) :
    pinAllows (some file) op := by
  cases op <;> first | exact ofHello.elim | exact ⟨pinned, loads⟩

theorem PeerOp.behindHandshake_of_ofHello {op : PeerOp} (ofHello : op.OfHello) :
    op.BehindHandshake := by
  cases op <;> trivial

/-- With a loaded pin file the Hello exchange is allowed. -/
theorem keeps_hello {file : PinFile} {pinned : Option PinHash}
    {program : Flow crypto ε (SessionEnd ε) α} (loads : PinStore.load file = .ok pinned)
    (greets : program.run.Within PeerOp.OfHello) :
    program.run.Keeps pinMode Refused (some file) := by
  refine keeps_mono (fun seen result same => ?_) (keeps_of_within greets
    (fun op => pinAllows_of_loads loads) fun op reply ofHello =>
      advance_of_behindHandshake (PeerOp.behindHandshake_of_ofHello ofHello) reply)
  rw [same]
  exact refused_of_loads loads result

/-- Every connection keeps to the pin file it has read. -/
theorem keeps_secured {io : IoError → ε}
    {pair : Flow crypto ε (PairingFlowError ε surface) Unit}
    {next : Unit → Flow crypto ε (SessionEnd ε) α}
    (pairs : pair.run.Within PeerOp.BehindHandshake)
    (greets : ∀ secured, (next secured).run.Within PeerOp.OfHello) :
    (secureConnection io pair >>= next).run.Keeps pinMode Refused none := by
  refine keeps_exceptBind_result (keeps_exceptBind_result ⟨trivial, fun checked _ => ?_⟩)
  refine keeps_exceptBind_result ?_
  cases checked with
  | error error => exact nofun
  | ok =>
      refine keeps_exceptBind_result ⟨trivial, fun file _ => ?_⟩
      refine keeps_exceptBind_result ?_
      cases loads : PinStore.load file with
      | error error => exact fun _ _ _ => rfl
      | ok pinned =>
          have refused {β : Type} (result : Except (SessionEnd ε) β) :=
            refused_of_loads loads result
          refine keeps_exceptBind_result ⟨loads, fun built _ => ?_⟩
          refine keeps_exceptBind_result ?_
          cases built with
          | error error => exact refused _
          | ok =>
              refine keeps_exceptBind_result ⟨⟨pinned, loads, rfl⟩, fun shaken _ => ?_⟩
              refine keeps_exceptBind_result ?_
              cases shaken with
              | error error => exact refused _
              | ok presented =>
                  cases pinned with
                  | some pin =>
                      exact keeps_hello loads (greets ())
                  | none =>
                      have missing : file = .missing := PinStore.load_eq_none_iff.mp loads
                      rw [missing]
                      refine keeps_exceptBind_result (keeps_bind ?_)
                      refine keeps_mono (fun seen paired same => ?_) (keeps_of_within pairs
                        (fun op => pinAllows_of_missing) fun op reply behind =>
                          advance_of_behindHandshake behind reply)
                      subst same
                      cases paired with
                      | error error => exact fun _ _ _ => rfl
                      | ok => exact keeps_hello rfl (greets ())

variable {seen : Option PinFile} {file : PinFile} {events : List (PeerEvent crypto ε)}
  {program rest : Interaction (PeerReply crypto ε) (Except (SessionEnd ε) α)}

/-- Once a file is read, no other is. -/
theorem lastPinFile_of_some
    (keeps : program.Keeps pinMode Refused (some file)) (trace : Trace program events rest) :
    events.foldl pinMode.advance (some file) = some file ∧
      ∀ other, ⟨.readPinFile, other⟩ ∉ events := by
  induction trace with
  | here => exact ⟨rfl, fun _ => List.not_mem_nil⟩
  | @step op next reply events rest later ih =>
      have still : pinMode.advance (some file) ⟨op, reply⟩ = some file := by
        have allowed : pinAllows (some file) op := keeps.1
        cases op <;> first | rfl | exact allowed.elim
      have notRead : op ≠ .readPinFile := by
        rintro rfl
        exact keeps.1
      have nextKeeps := keeps.2 reply trivial
      rw [still] at nextKeeps
      obtain ⟨same, noneRead⟩ := ih nextKeeps
      refine ⟨by rw [List.foldl_cons, still, same], fun other member => ?_⟩
      rcases List.mem_cons.mp member with head | member
      · exact notRead (congrArg Sigma.fst head).symm
      · exact noneRead other member

/-- The monitor has seen the file the connection has read. -/
theorem lastPinFile_eq_some_iff
    (keeps : program.Keeps pinMode Refused none) (trace : Trace program events rest) :
    events.foldl pinMode.advance none = some file ↔ ⟨.readPinFile, file⟩ ∈ events := by
  induction trace with
  | here => exact ⟨nofun, nofun⟩
  | @step op next reply events rest later ih =>
      have nextKeeps := keeps.2 reply trivial
      by_cases isRead : op = .readPinFile
      · subst isRead
        obtain ⟨same, noneRead⟩ := lastPinFile_of_some nextKeeps later
        change events.foldl pinMode.advance (some reply) = some file ↔ _
        rw [same, Option.some.injEq, List.mem_cons, or_iff_left (noneRead file)]
        constructor
        · rintro rfl
          rfl
        · rintro ⟨⟩
          rfl
      · have still : pinMode.advance none ⟨op, reply⟩ = none := by
          cases op <;> first | rfl | exact absurd rfl isRead
        rw [still] at nextKeeps
        rw [List.foldl_cons, still, ih nextKeeps, List.mem_cons, or_iff_right]
        intro head
        exact isRead (congrArg Sigma.fst head).symm

/-- How a connection fails closed.  If it comes to the Hello exchange without
anything in between, its pin file has spelled the pin of the certificate
presented.  If the file spells no pin, the connection is refused before its
handshake.  The permissive verifier is used only when there is no file. -/
structure FailsClosed (secure : Flow crypto ε (SessionEnd ε) Unit)
    (events : List (PeerEvent crypto ε))
    (rest : Interaction (PeerReply crypto ε) (Except (SessionEnd ε) α)) : Prop where
  pinned : ∀ before, before <+: events → Trace secure.run before (.done (.ok ())) →
    (∀ event ∈ before, ¬ event.1.BehindHandshake) →
      ∃ contents presented,
        before = securing (.text contents) (some (pinHashOf crypto.sha256 presented))
          presented ∧
        PinStore.Spells contents (pinHashOf crypto.sha256 presented)
  refuses : ∀ file, ⟨.readPinFile, file⟩ ∈ events → file ≠ .missing →
    (∀ contents pin, file = .text contents → ¬ PinStore.Spells contents pin) →
      rest = .done (.error .closed) ∧
        ∀ op ∈ calls events rest, op = .setNodelay ∨ op = .readPinFile
  permissive : .buildConfig none ∈ calls events rest ∨
    .handshake .permissive ∈ calls events rest →
      ∀ file, ⟨.readPinFile, file⟩ ∈ events ↔ file = .missing

/-- A file that spells no pin allows nothing more. -/
theorem load_ne_ok_of_not_spells (present : file ≠ .missing)
    (spellsNone : ∀ contents pin, file = .text contents → ¬ PinStore.Spells contents pin)
    (pinned : Option PinHash) : PinStore.load file ≠ .ok pinned := by
  intro loads
  cases pinned with
  | none => exact present (PinStore.load_eq_none_iff.mp loads)
  | some pin =>
      obtain ⟨contents, same, spells⟩ := PinStore.load_eq_some_iff.mp loads
      exact spellsNone contents pin same spells

theorem not_pinAllows {op : PeerOp} (corrupt : ∀ pinned, PinStore.load file ≠ .ok pinned) :
    ¬ pinAllows (some file) op := by
  intro allows
  cases op
  case buildConfig pinned => exact corrupt pinned allows
  case handshake verifier =>
    obtain ⟨pinned, loads, _⟩ := allows
    exact corrupt pinned loads
  case storePin pin => exact corrupt none (PinStore.load_eq_none_iff.mpr allows)
  case setNodelay => exact allows
  case readPinFile => exact allows
  all_goals
    obtain ⟨pinned, loads⟩ := allows
    exact corrupt pinned loads

theorem missing_of_permissive {op : PeerOp}
    (permissive : op = .buildConfig none ∨ op = .handshake .permissive)
    (allows : pinAllows seen op) : seen = some .missing := by
  cases seen with
  | none => rcases permissive with rfl | rfl <;> exact allows.elim
  | some file =>
      rcases permissive with rfl | rfl
      · rw [PinStore.load_eq_none_iff.mp allows]
      · obtain ⟨pinned, loads, isPermissive⟩ := allows
        cases pinned with
        | none => rw [PinStore.load_eq_none_iff.mp loads]
        | some pin => cases isPermissive

/-- The state of the monitor at an operation is the file read before it. -/
theorem read_of_allowed {op : PeerOp} (keeps : program.Keeps pinMode Refused none)
    (trace : Trace program events rest) (called : op ∈ calls events rest) :
    ∃ seen, pinAllows seen op ∧
      ∀ file, seen = some file → ⟨.readPinFile, file⟩ ∈ events := by
  obtain ⟨before, after, rfl, allows⟩ :=
    keeps.allowed_of_called trace (fun _ _ => trivial) called
  refine ⟨_, allows, fun file seen => ?_⟩
  obtain ⟨_, first, _⟩ := trace_append trace
  exact List.mem_append_left _ ((lastPinFile_eq_some_iff keeps first).mp seen)

theorem refused_of_read (keeps : program.Keeps pinMode Refused none)
    (trace : Trace program events rest) (read : ⟨.readPinFile, file⟩ ∈ events)
    (corrupt : ∀ pinned, PinStore.load file ≠ .ok pinned) :
    rest = .done (.error .closed) ∧
      ∀ op ∈ calls events rest, op = .setNodelay ∨ op = .readPinFile := by
  have lastIs {other : PinFile} := @lastPinFile_eq_some_iff _ _ _ other _ _ _ keeps trace
  have restKeeps := keeps.of_trace trace fun _ _ => trivial
  rw [lastIs.mpr read] at restKeeps
  constructor
  · cases rest with
    | done result => rw [restKeeps file rfl corrupt]
    | ask op next => exact absurd restKeeps.1 (not_pinAllows corrupt)
  · intro op called
    obtain ⟨seen, allows, wasRead⟩ := read_of_allowed keeps trace called
    cases seen with
    | none => cases op <;> first | exact .inl rfl | exact .inr rfl | exact allows.elim
    | some other =>
        have same : some file = some other :=
          (lastIs.mpr read).symm.trans (lastIs.mpr (wasRead other rfl))
        cases same
        exact absurd allows (not_pinAllows corrupt)

theorem missing_of_called {op : PeerOp} (keeps : program.Keeps pinMode Refused none)
    (trace : Trace program events rest) (called : op ∈ calls events rest)
    (permissive : op = .buildConfig none ∨ op = .handshake .permissive) (file : PinFile) :
    ⟨.readPinFile, file⟩ ∈ events ↔ file = .missing := by
  have lastIs {other : PinFile} := @lastPinFile_eq_some_iff _ _ _ other _ _ _ keeps trace
  obtain ⟨seen, allows, wasRead⟩ := read_of_allowed keeps trace called
  have missing := wasRead _ (missing_of_permissive permissive allows)
  rw [← lastIs, lastIs.mpr missing, Option.some.injEq, eq_comm]

/-- Without a pairing flow, the handshake has compared the pin. -/
theorem spells_of_secured {io : IoError → ε}
    {pair : Flow crypto ε (PairingFlowError ε surface) Unit}
    (pairs : pair.run.Within PeerOp.BehindHandshake)
    (pairsFirst : ¬ Trace pair.run [] (.done (.ok ())))
    (secured : Trace (secureConnection io pair).run events (.done (.ok ())))
    (verified : Verified events) (direct : ∀ event ∈ events, ¬ event.1.BehindHandshake) :
    ∃ contents presented,
      events = securing (.text contents) (some (pinHashOf crypto.sha256 presented))
        presented ∧
      PinStore.Spells contents (pinHashOf crypto.sha256 presented) := by
  obtain ⟨file, pinned, presented, pairing, loads, rfl, paired⟩ :=
    trace_secureConnection_ok secured
  cases pinned with
  | none =>
      cases pairing with
      | nil => exact absurd paired pairsFirst
      | cons event pairing =>
          have behind := allowed_of_mem pairs paired List.mem_cons_self
          exact absurd behind (direct event (List.mem_append_right _ List.mem_cons_self))
  | some pin =>
      subst paired
      have holds : HoldsPin crypto file presented :=
        holdsPin_of_loaded loads (verified _ presented (by simp [securing]))
      have same : pin = pinHashOf crypto.sha256 presented :=
        Option.some.inj (Except.ok.inj (loads.symm.trans holds))
      obtain ⟨contents, rfl, spells⟩ := PinStore.load_eq_some_iff.mp holds
      exact ⟨contents, presented, by rw [List.append_nil, same], spells⟩

theorem failsClosed {io : IoError → ε}
    {pair : Flow crypto ε (PairingFlowError ε surface) Unit}
    (pairs : pair.run.Within PeerOp.BehindHandshake)
    (pairsFirst : ¬ Trace pair.run [] (.done (.ok ())))
    (keeps : program.Keeps pinMode Refused none) (trace : Trace program events rest)
    (verified : Verified events) :
    FailsClosed (secureConnection io pair) events rest := by
  constructor
  case pinned =>
    rintro before ⟨after, rfl⟩ secured direct
    have verifiedBefore : Verified before := fun verifier presented member =>
      verified verifier presented (List.mem_append_left _ member)
    exact spells_of_secured pairs pairsFirst secured verifiedBefore direct
  case refuses =>
    intro file read present spellsNone
    exact refused_of_read keeps trace read (load_ne_ok_of_not_spells present spellsNone)
  case permissive =>
    rintro (called | called) file
    · exact missing_of_called keeps trace called (.inl rfl) file
    · exact missing_of_called keeps trace called (.inr rfl) file

end PinMode

variable {crypto : Crypto} {certDer : List UInt8}

theorem keeps_handlePeer {screenPx : UInt16 × UInt16} :
    (Server.handlePeer crypto certDer screenPx).run.Keeps pinMode Refused none := by
  refine keeps_secured (Server.within_runServerPairingFlow fun _ _ behind => behind)
    fun _ => ?_
  refine within_exceptBind (within_ask trivial) fun _ => ?_
  refine within_exceptBind (within_orFail _ _) fun hello => ?_
  split
  · exact within_exceptBind (within_ask trivial) fun _ => within_orFail _ _
  · trivial

theorem keeps_runOneSession {peerName : String} :
    (Client.runOneSession crypto certDer peerName).run.Keeps pinMode Refused none := by
  refine keeps_secured (Client.within_runClientPairingFlow fun _ _ behind => behind)
    fun _ => ?_
  refine within_exceptBind (within_ask trivial) fun _ => ?_
  refine within_exceptBind (within_orFail _ _) fun _ => ?_
  refine within_exceptBind (within_ask trivial) fun _ => ?_
  refine within_exceptBind (within_orFail _ _) fun reply => ?_
  split
  · split <;> trivial
  · trivial

/-- In every run of either program, the connection fails closed. -/
theorem pinMode_failsClosed (crypto : Crypto) (certDer : List UInt8) :
    (∀ screenPx events rest,
      Trace (Server.handlePeer crypto certDer screenPx).run events rest →
        Verified events → FailsClosed (Server.secureConnection crypto certDer) events rest) ∧
      ∀ peerName events rest,
        Trace (Client.runOneSession crypto certDer peerName).run events rest →
          Verified events →
            FailsClosed (Client.secureConnection crypto certDer) events rest := by
  constructor
  · intro screenPx events rest trace verified
    exact failsClosed (Server.within_runServerPairingFlow fun _ _ behind => behind) nofun
      keeps_handlePeer trace verified
  · intro peerName events rest trace verified
    exact failsClosed (Client.within_runClientPairingFlow fun _ _ behind => behind) nofun
      keeps_runOneSession trace verified

/-! ## A pinned peer and a corrupt file -/

/-- The file of a server that has paired with the client. -/
def pairedFile : PinFile :=
  .text (PinStore.contents (pinHashOf mockCrypto.sha256 clientCert))

def pinnedRun : List (PeerEvent mockCrypto Server.ServerError) :=
  securing pairedFile (some (pinHashOf mockCrypto.sha256 clientCert)) clientCert

def corruptRun : List (PeerEvent mockCrypto Client.ClientError) :=
  [⟨.setNodelay, .ok ()⟩, ⟨.readPinFile, .text "3a"⟩]

theorem verified_pinnedRun : Verified (pinnedRun ++ serverHello) := by
  intro verifier presented member
  have same : verifier = CertVerifier.ofPinned
      (some (pinHashOf mockCrypto.sha256 clientCert)) ∧ presented = clientCert := by
    simpa [pinnedRun, serverHello, securing] using member
  rw [same.1, same.2, CertVerifier.ofPinned, CertVerifier.verifyCert, if_pos rfl]

/-- The pin that is compared is the one the file spells, and a file with one byte
is refused. -/
theorem pinMode_failsClosed_runs :
    FailsClosed (Server.secureConnection mockCrypto serverCert) (pinnedRun ++ serverHello)
        (.done (.ok ()) : Interaction (PeerReply mockCrypto Server.ServerError)
          (Except (SessionEnd Server.ServerError) Unit)) ∧
      FailsClosed (Client.secureConnection mockCrypto clientCert) corruptRun
        (.done (.error .closed) : Interaction (PeerReply mockCrypto Client.ClientError)
          (Except (SessionEnd Client.ClientError) Unit)) := by
  constructor
  · refine (pinMode_failsClosed mockCrypto serverCert).1 (1920, 1080) _ _ ?_
      verified_pinnedRun
    have secured : Trace (Server.secureConnection mockCrypto serverCert).run (pinnedRun ++ [])
        (.done (.ok ())) := trace_securing (PinStore.load_contents _) (.here _)
    rw [List.append_nil] at secured
    exact secured.exceptBind (.step (.step (.here _)))
  · refine (pinMode_failsClosed mockCrypto clientCert).2 "client" _ _ ?_ ?_
    · exact .step (.step (.here _))
    · simp [Verified, corruptRun]

end Kmwarp.Net
