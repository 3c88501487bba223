import Kmwarp.Foundation.Runs
import Kmwarp.Handoff.System

/-!
# Who owns control

Every step outside the client's watcher is a move of the token machine.  Ticks
that nothing interleaves with keep control from being owned twice; a watcher
that is interleaved with strands control unless no step loses it.
-/

namespace Kmwarp.Handoff

open Foundation Wire

/-! ## What the token counts see -/

theorem isTakeControl_of_converted {event : SourceEvent} {msg : Message}
    (converted : sourceEventToMessage event = some msg) (remap : ModRemap) :
    Client.isTakeControl (Server.remapKeyMessage msg remap) = false := by
  cases event <;> cases converted <;> rfl

theorem isTakeControl_drainMessages (held : HeldKeys) :
    ∀ msg ∈ Server.drainMessages held, Client.isTakeControl msg = false := by
  intro msg member
  obtain ⟨hid, _, rfl⟩ := List.mem_map.mp member
  rfl

/-- Of what a crossing sends only `TakeControl` counts, and it is lost when the
channel is full. -/
theorem countP_crossing (serverOut : Mailbox Server.outboundChannelBound Message)
    (held : HeldKeys) (entryY : UInt16) (backX backY : Int) (remote : String) :
    let sent := serverOut.offerAll (Server.sends
      ([.enqueue (.takeControl entryY), .warpCursorAbs backX backY, .hideCursor] ++
        (Server.drainHeldToPeer held).2 ++
          [.storeSwallow true, .publishStatus (.active remote)]))
    sent.items.countP Client.isTakeControl =
        serverOut.items.countP Client.isTakeControl + 1 ∨
      sent.items.countP Client.isTakeControl =
          serverOut.items.countP Client.isTakeControl ∧
        ¬ serverOut.items.length < Server.outboundChannelBound := by
  intro sent
  have counted : Client.isTakeControl (.takeControl entryY) = true := rfl
  have onlyTake : sent.items.countP Client.isTakeControl =
      (serverOut.offer (.takeControl entryY)).items.countP Client.isTakeControl := by
    have sends : sent =
        (serverOut.offer (.takeControl entryY)).offerAll (Server.drainMessages held) := by
      simp [sent, Server.Effect.sent?, Mailbox.offerAll]
    rw [sends]
    exact Mailbox.countP_offerAll (isTakeControl_drainMessages held) _
  rw [onlyTake]
  rcases Mailbox.countP_offer_counted counted serverOut with accepted | ⟨dropped, full⟩
  · exact .inl accepted
  · exact .inr ⟨by rw [dropped], full⟩

theorem not_control_of_isBackground {msg : Message}
    (background : Server.isBackground msg = true) :
    Client.isTakeControl msg = false ∧ isReleaseControl msg = false := by
  cases msg <;> first | exact ⟨rfl, rfl⟩ | cases background

/-! ## Steps are token moves -/

/-- No token is lost in this step: a crossing and a release find room in their
channels, and no `TakeControl` is dispatched to a watcher about to clear
`active`. -/
def keepsControl (env : HandoffEnv) (handoff : Handoff) :
    HandoffLabel ⊕ Client.WatcherAction → Bool
  | .inl (.brain nowMs) =>
      match handoff.brainQueue.recv with
      | none => true
      | some (input, _) =>
          !handoff.brain.crosses env.server input nowMs ||
            handoff.serverOut.items.length < Server.outboundChannelBound
  | .inl .clientDispatch =>
      !handoff.toClient.head?.any Client.isTakeControl || handoff.watcher ≠ .sent
  | .inl .serverRead =>
      !handoff.toServer.head?.any isReleaseControl ||
        handoff.brainQueue.items.length < Server.brainChannelBound
  | .inr .trySend => handoff.client.txOut.items.length < Client.outboundChannelBound
  | _ => true

/-- The step is a move of the token machine.  One that keeps control loses
nothing, and delivers only to a watcher that lets `active` stand. -/
def MovesControl (env : HandoffEnv) (handoff : Handoff) (label : HandoffLabel)
    (next : Handoff) : Prop :=
  ∃ passage, TokenMove handoff.tokens passage next.tokens ∧
    (handoff.keepsControl env (.inl label) = true →
      passage ≠ .lost ∧ (passage = .delivered → handoff.watcher ≠ .sent))

variable {env : HandoffEnv} {handoff next : Handoff} {label : HandoffLabel}

theorem MovesControl.of_kept {tokens : Tokens} (move : TokenMove handoff.tokens .kept tokens)
    (reached : next.tokens = tokens) : MovesControl env handoff label next := by
  refine ⟨.kept, reached ▸ move, fun _ => ⟨by decide, ?_⟩⟩
  intro delivered
  cases delivered

theorem MovesControl.of_same (same : next.tokens = handoff.tokens) :
    MovesControl env handoff label next :=
  .of_kept .keep same

theorem releases_of_recv {input : Server.BrainInput}
    {rest : Mailbox Server.brainChannelBound Server.BrainInput}
    (received : handoff.brainQueue.recv = some (input, rest)) :
    handoff.releases =
      releases { handoff with brainQueue := rest } + (isReleaseInput input).toNat := by
  rw [releases, releases, Mailbox.items_recv received, List.countP_cons]
  cases isReleaseInput input with
  | false => rfl
  | true =>
      simp only [if_pos, Bool.toNat_true]
      omega

theorem state_step_of_isReleaseInput (env : Server.BrainEnv) (brain : Server.Brain)
    {input : Server.BrainInput} (isRelease : isReleaseInput input = true) (nowMs : Nat) :
    (brain.step env input nowMs).1.sm.state = .localActive := by
  match input, isRelease with
  | .wireMessage (.releaseControl exitY), _ =>
      exact brain.state_step_releaseControl env exitY nowMs

/-- A brain step takes, returns or ignores control, and a crossing that finds
the outbound channel full loses it. -/
theorem movesControl_brain {nowMs : Nat}
    (moved : handoff.move env (.brain nowMs) = some next) :
    MovesControl env handoff (.brain nowMs) next := by
  rw [move] at moved
  cases received : handoff.brainQueue.recv with
  | none =>
      rw [received] at moved
      cases moved
  | some taken =>
      obtain ⟨input, brainQueue⟩ := taken
      have releasesLeft := releases_of_recv received
      have turn := handoff.brain.turn env.server input nowMs
      have crossing := handoff.brain.crosses_iff env.server input nowMs
      have released (isRelease : isReleaseInput input = true) :=
        state_step_of_isReleaseInput env.server handoff.brain isRelease nowMs
      rcases stepped : handoff.brain.step env.server input nowMs with ⟨brain, effects⟩
      simp only [received, stepped, Option.some.injEq] at moved turn crossing released
      subst moved
      cases turn with
      | crossing wasLocal isRemote drained =>
          rcases countP_crossing handoff.serverOut handoff.brain.held _ _ _
            env.server.remote with accepted | ⟨dropped, full⟩
          · apply MovesControl.of_kept (.take wasLocal)
            exact Tokens.ext isRemote (congrArg (_ + ·) accepted) rfl releasesLeft.symm
          · have move : TokenMove handoff.tokens .lost
                { handoff.tokens with state := .remoteActive } := .takeDropped wasLocal
            refine ⟨.lost, ?_, fun keeps => ?_⟩
            · convert move using 1
              exact Tokens.ext isRemote (congrArg (_ + ·) dropped) rfl releasesLeft.symm
            · have crosses := crossing.mpr ⟨wasLocal, isRemote⟩
              simp only [keepsControl, received, crosses, Bool.not_true, Bool.false_or,
                decide_eq_true_eq] at keeps
              exact absurd keeps full
      | @forwarding event msg converted isRemote =>
          have others : ∀ sent ∈ [Server.remapKeyMessage msg env.server.modRemap],
              Client.isTakeControl sent = false :=
            List.forall_mem_singleton.mpr (isTakeControl_of_converted converted _)
          have offered := Mailbox.countP_offerAll others handoff.serverOut
          apply MovesControl.of_same
          exact Tokens.ext rfl (congrArg (_ + ·) offered) rfl releasesLeft.symm
      | leaving wasRemote isLocal drained =>
          have offered :=
            Mailbox.countP_offerAll (isTakeControl_drainMessages handoff.brain.held)
              handoff.serverOut
          apply MovesControl.of_kept (.return releasesLeft wasRemote)
          refine Tokens.ext isLocal ?_ rfl rfl
          simp [tokens, takes, Server.Effect.sent?, offered]
      | silent sameState sameHeld =>
          cases isRelease : isReleaseInput input with
          | false =>
              rw [isRelease] at releasesLeft
              apply MovesControl.of_same
              exact Tokens.ext sameState rfl rfl releasesLeft.symm
          | true =>
              rw [isRelease] at releasesLeft
              have wasLocal := sameState.symm.trans (released isRelease)
              apply MovesControl.of_kept (.ignoreRelease releasesLeft wasLocal)
              exact Tokens.ext sameState rfl rfl rfl

/-- Dispatching `TakeControl` delivers control, and nothing else does. -/
theorem movesControl_clientDispatch
    (moved : handoff.move env .clientDispatch = some next) :
    MovesControl env handoff .clientDispatch next := by
  rw [move] at moved
  split at moved
  · cases moved
  · cases moved
  · rename_i msg rest _ inFlight
    cases dispatched : Client.dispatchOne env.client msg handoff.client with
    | error arm =>
        rw [dispatched] at moved
        cases moved
    | ok client =>
        simp only [dispatched, Option.some.injEq] at moved
        subst moved
        obtain ⟨_, _, _, _, active, shared⟩ := Client.dispatches_of_dispatchOne dispatched
        have sameReleases : client.txOut.items.countP isReleaseControl =
            handoff.client.txOut.items.countP isReleaseControl := by
          rcases shared with same | ⟨tsNs, echoed⟩
          · rw [same]
          · rw [echoed]
            exact Mailbox.countP_offer rfl _
        cases isTake : Client.isTakeControl msg with
        | false =>
            rw [isTake, Bool.false_or] at active
            apply MovesControl.of_same
            refine Tokens.ext rfl ?_ active (congrArg (_ + ·) sameReleases)
            simp [tokens, takes, inFlight, isTake]
        | true =>
            rw [isTake, Bool.true_or] at active
            have delivered : handoff.tokens.takes =
                rest.countP Client.isTakeControl +
                  handoff.serverOut.items.countP Client.isTakeControl + 1 := by
              simp only [tokens, takes, inFlight, List.countP_cons, isTake, if_pos]
              omega
            refine ⟨.delivered, ?_, fun keeps => ⟨by decide, fun _ => ?_⟩⟩
            · convert TokenMove.deliver delivered using 1
              exact Tokens.ext rfl rfl active (congrArg (_ + ·) sameReleases)
            · simpa [keepsControl, inFlight, isTake] using keeps

theorem countP_readerTask (msg : Message)
    (txOut : Mailbox Server.outboundChannelBound Message)
    (brainTx : Mailbox Server.brainChannelBound Server.BrainInput) :
    (Server.readerTask msg txOut brainTx).1.items.countP Client.isTakeControl =
      txOut.items.countP Client.isTakeControl := by
  cases msg
  case echoPing tsNs => exact Mailbox.countP_offer rfl txOut
  all_goals rfl

theorem readerTask_of_not_release {msg : Message} (other : isReleaseControl msg = false)
    (txOut : Mailbox Server.outboundChannelBound Message)
    (brainTx : Mailbox Server.brainChannelBound Server.BrainInput) :
    (Server.readerTask msg txOut brainTx).2 = brainTx := by
  cases msg
  case releaseControl exitY => cases other
  all_goals rfl

/-- The server's reader passes a release on to the brain, or loses it when the
brain's channel is full. -/
theorem movesControl_serverRead (moved : handoff.move env .serverRead = some next) :
    MovesControl env handoff .serverRead next := by
  rw [move] at moved
  split at moved
  · cases moved
  · cases moved
  · rename_i msg rest _ inFlight
    simp only [Option.some.injEq] at moved
    subst moved
    have sameTakes := countP_readerTask msg handoff.serverOut handoff.brainQueue
    cases isRelease : isReleaseControl msg with
    | false =>
        apply MovesControl.of_same
        refine Tokens.ext rfl (congrArg (_ + ·) sameTakes) rfl ?_
        simp [tokens, releases, inFlight, isRelease, readerTask_of_not_release isRelease]
    | true =>
        match msg, isRelease with
        | .releaseControl exitY, _ =>
            have counted : isReleaseInput (.wireMessage (.releaseControl exitY)) = true := rfl
            rcases Mailbox.countP_offer_counted counted handoff.brainQueue with
              accepted | ⟨dropped, full⟩
            · apply MovesControl.of_same
              refine Tokens.ext rfl rfl rfl ?_
              simp [tokens, releases, inFlight, Server.readerTask, accepted,
                isReleaseControl, List.countP_cons]
              omega
            · have lost : handoff.tokens.releases =
                  handoff.brainQueue.items.countP isReleaseInput +
                    rest.countP isReleaseControl +
                      handoff.client.txOut.items.countP isReleaseControl + 1 := by
                simp [tokens, releases, inFlight, isReleaseControl, List.countP_cons]
                omega
              refine ⟨.lost, ?_, fun keeps => ?_⟩
              · convert TokenMove.releaseDropped lost using 1
                refine Tokens.ext rfl rfl rfl ?_
                simp [tokens, releases, Server.readerTask, dropped]
              · have room : handoff.brainQueue.items.length < Server.brainChannelBound := by
                  simpa [keepsControl, inFlight, isReleaseControl] using keeps
                exact absurd room full

/-- The remaining steps send nothing that counts, or pass a message on from
one queue to the next. -/
theorem movesControl_move (moved : handoff.move env label = some next) :
    MovesControl env handoff label next := by
  cases label with
  | brain nowMs => exact movesControl_brain moved
  | clientDispatch => exact movesControl_clientDispatch moved
  | serverRead => exact movesControl_serverRead moved
  | source event =>
      cases moved
      have uncounted : isReleaseInput (.source event) = false := rfl
      have same := Mailbox.countP_offer uncounted handoff.brainQueue
      apply MovesControl.of_same
      refine Tokens.ext rfl rfl rfl ?_
      simp only [tokens, releases, same]
  | serverSend msg =>
      rw [move] at moved
      split at moved
      · rename_i background
        cases moved
        have same := Mailbox.countP_offer (not_control_of_isBackground background).1
          handoff.serverOut
        apply MovesControl.of_same
        exact Tokens.ext rfl (congrArg (_ + ·) same) rfl rfl
      · cases moved
  | clientSend msg =>
      rw [move] at moved
      split at moved
      · rename_i background
        cases moved
        have same := Mailbox.countP_offer (not_control_of_isBackground background).2
          handoff.client.txOut
        apply MovesControl.of_same
        exact Tokens.ext rfl rfl rfl (congrArg (_ + ·) same)
      · cases moved
  | serverEncode =>
      rw [move] at moved
      split at moved
      · cases moved
      · rename_i msg rest received
        cases moved
        apply MovesControl.of_same
        refine Tokens.ext rfl ?_ rfl rfl
        simp only [tokens, takes, Mailbox.items_recv received, List.countP_append,
          List.countP_cons, List.countP_nil]
        omega
  | clientEncode =>
      rw [move] at moved
      split at moved
      · cases moved
      · rename_i msg rest received
        cases moved
        apply MovesControl.of_same
        refine Tokens.ext rfl rfl rfl ?_
        simp only [tokens, releases, Mailbox.items_recv received, List.countP_append,
          List.countP_cons, List.countP_nil]
        omega

theorem watcher_move (moved : handoff.move env label = some next) :
    next.watcher = handoff.watcher := by
  cases label
  all_goals
    simp only [move] at moved
    repeat' split at moved
    all_goals cases moved
    all_goals rfl

/-! ## Ticks as single steps -/

theorem exec_watch (env : HandoffEnv) (actions : List Client.WatcherAction)
    (handoff : Handoff) :
    exec (step env) handoff (actions.map .inr) =
      (Client.watch env.client.peerAddr actions handoff.watcher handoff.client).map
        fun (watcher, client) => { handoff with watcher := watcher, client := client } := by
  induction actions generalizing handoff with
  | nil => rfl
  | cons action actions ih =>
      rw [List.map_cons, exec, step, Client.watch]
      cases Client.cursorLeaveWatcher env.client.peerAddr action handoff.watcher
          handoff.client with
      | none => rfl
      | some result =>
          exact ih { handoff with watcher := result.1, client := result.2 }

/-- Every run with ticks as single steps is a run of the interleaved system. -/
theorem exec_of_exec_atomicStep {labels : List (HandoffLabel ⊕ Option (Int × Int))}
    {final : Handoff} (waiting : handoff.watcher = .waiting)
    (run : exec (atomicStep env) handoff labels = some final) :
    ∃ actions, exec (step env) handoff actions = some final := by
  induction labels generalizing handoff with
  | nil => exact ⟨[], run⟩
  | cons label labels ih =>
      obtain ⟨next, taken, rest⟩ := exec_cons_eq_some.mp run
      cases label with
      | inl label =>
          obtain ⟨actions, reached⟩ := ih ((watcher_move taken).trans waiting) rest
          exact ⟨.inl label :: actions, exec_cons_eq_some.mpr ⟨next, taken, reached⟩⟩
      | inr pos =>
          cases taken
          have stillWaiting : Handoff.watcher { handoff with
              client := Client.cursorLeaveTick env.client.peerAddr pos handoff.client } =
                .waiting := waiting
          obtain ⟨actions, reached⟩ := ih stillWaiting rest
          rw [waiting] at reached
          refine ⟨(Client.tickActions pos handoff.client).map .inr ++ actions, ?_⟩
          rw [exec_append, exec_watch, waiting, Client.watch_tickActions]
          exact reached

theorem tickMove_cursorLeaveTick (peerAddr : String) (pos : Option (Int × Int))
    (handoff : Handoff) :
    TickMove handoff.tokens
      { handoff with
        client := Client.cursorLeaveTick peerAddr pos handoff.client }.tokens := by
  unfold Client.cursorLeaveTick
  split
  · rename_i active
    have wasActive : handoff.tokens.active = true := active
    split
    · exact .idle
    · rename_i x y
      split
      · exact .idle
      · have counted : isReleaseControl (.releaseControl (clampToU16 y)) = true := rfl
        rcases Mailbox.countP_offer_counted counted handoff.client.txOut with
          accepted | ⟨dropped, _⟩
        · convert TickMove.release wasActive using 1
          refine Tokens.ext rfl rfl rfl ?_
          simp [tokens, releases, accepted]
          omega
        · convert TickMove.releaseDropped wasActive using 1
          refine Tokens.ext rfl rfl rfl ?_
          simp only [tokens, releases, dropped]
  · exact .idle

/-- At most one `TakeControl` under way, active client or `ReleaseControl` under
way exists, and only while the server is remote.  So no `TakeControl` reaches an
active client, and no `ReleaseControl` reaches a local brain. -/
theorem control_owned_once {statusTx : Option Client.ClientStatus}
    {labels : List (HandoffLabel ⊕ Option (Int × Int))} {final : Handoff}
    (run : exec (atomicStep env) (start env statusTx) labels = some final) :
    final.takes + final.client.active.toNat + final.releases ≤ 1 ∧
      (0 < final.takes + final.client.active.toNat + final.releases →
        final.brain.sm.state = .remoteActive) ∧
      (∀ entryY rest, final.toClient = .takeControl entryY :: rest →
        final.client.active = false) ∧
      ∀ exitY rest, final.brainQueue.items = .wireMessage (.releaseControl exitY) :: rest →
        final.brain.sm.state = .remoteActive := by
  have initial : (start env statusTx).tokens.Once := by
    constructor
    · exact Nat.zero_le 1
    · intro somewhere
      cases somewhere
  have preserved : ∀ (state : Handoff) label next, state.tokens.Once →
      atomicStep env state label = some next → next.tokens.Once := by
    intro state label next once stepped
    cases label with
    | inl label =>
        obtain ⟨passage, move, _⟩ := movesControl_move stepped
        exact move.once once
    | inr pos =>
        cases stepped
        exact (tickMove_cursorLeaveTick env.client.peerAddr pos state).once once
  obtain ⟨atMostOne, onlyRemote⟩ := invariant_of_exec preserved initial run
  refine ⟨atMostOne, onlyRemote, ?_, ?_⟩
  · intro entryY rest delivered
    cases active : final.client.active with
    | false => rfl
    | true =>
        simp only [Tokens.total, tokens, takes, delivered, active, List.countP_cons,
          Client.isTakeControl, if_pos, Bool.toNat_true] at atMostOne
        omega
  · intro exitY rest processed
    apply onlyRemote
    simp only [Tokens.total, tokens, releases, processed, List.countP_cons,
      isReleaseInput, isReleaseControl, if_pos]
    omega

/-- A Mac with one display and a client whose clipboard takes every text. -/
def singleClient : HandoffEnv where
  server := Server.singleDisplay
  client :=
    { sha256 := fun _ => Vector.replicate 32 0
      clipboardAccepts := fun _ _ => true
      peerAddr := "server" }

/-- The cursor reaches the right edge, and the crossing is dispatched. -/
def crossOver (nowMs : Nat) : List HandoffLabel :=
  [.source (.cursorAt 1919 300), .brain nowMs, .serverEncode, .clientDispatch]

/-- The release is sent off and processed. -/
def bringBack (nowMs : Nat) : List HandoffLabel :=
  [.clientEncode, .serverRead, .brain nowMs]

/-- Control goes to the client, comes back and goes there again. -/
def thereAndBack : List (HandoffLabel ⊕ Option (Int × Int)) :=
  (crossOver 100).map .inl ++ [.inr (some (0, 300))] ++ (bringBack 200).map .inl ++
    (crossOver 300).map .inl

theorem control_owned_once_thereAndBack :
    ∃ final, exec (atomicStep singleClient) (start singleClient none) thereAndBack =
        some final ∧
      final.tokens = ⟨.remoteActive, 0, true, 0⟩ ∧
      final.takes + final.client.active.toNat + final.releases ≤ 1 := by
  have run : (exec (atomicStep singleClient) (start singleClient none)
      thereAndBack).map tokens = some ⟨.remoteActive, 0, true, 0⟩ := by
    decide
  obtain ⟨final, reached, outcome⟩ := Option.map_eq_some_iff.mp run
  exact ⟨final, reached, outcome, (control_owned_once reached).1⟩

/-! ## Ticks that are interleaved with -/

/-- Control with `active` read as the watcher is about to leave it. -/
def settled (handoff : Handoff) : Tokens :=
  if handoff.watcher = .sent then handoff.tokens.deactivated else handoff.tokens

/-- Control is accounted for exactly, and the watcher leaves only an active
client. -/
structure Accounted (handoff : Handoff) : Prop where
  exactly : handoff.settled.Exact
  active : handoff.watcher ≠ .waiting → handoff.client.active = true

/-- While the server is remote, control is under way or with the client. -/
def NotStranded (handoff : Handoff) : Prop :=
  handoff.brain.sm.state = .remoteActive →
    0 < handoff.takes ∨ handoff.client.active = true ∨ 0 < handoff.releases

theorem Accounted.notStranded (accounted : handoff.Accounted) : handoff.NotStranded := by
  intro isRemote
  have settledTotal : handoff.settled.total ≤ handoff.tokens.total := by
    rw [settled]
    split
    · simp only [Tokens.total, Tokens.deactivated, Bool.toNat_false]
      omega
    · exact Nat.le_refl _
  have settledState : handoff.settled.state = .remoteActive := by
    rw [settled]
    split <;> exact isRemote
  have single := accounted.exactly.ofRemote settledState
  cases active : handoff.client.active with
  | true => exact .inr (.inl rfl)
  | false =>
      simp only [Tokens.total, tokens, active, Bool.toNat_false] at settledTotal
      simp only [Tokens.total] at single
      omega

theorem accounted_move (accounted : handoff.Accounted)
    (keeps : handoff.keepsControl env (.inl label) = true)
    (moved : handoff.move env label = some next) : next.Accounted := by
  obtain ⟨passage, move, kept⟩ := movesControl_move moved
  obtain ⟨notLost, deliveredToOpen⟩ := kept keeps
  have sameWatcher := watcher_move moved
  constructor
  · have exactly := accounted.exactly
    rw [settled] at exactly ⊢
    rw [sameWatcher]
    by_cases sent : handoff.watcher = .sent
    · rw [if_pos sent] at exactly ⊢
      have notDelivered : passage ≠ .delivered := fun delivered =>
        deliveredToOpen delivered sent
      exact (move.deactivated notDelivered).exact notLost exactly
    · rw [if_neg sent] at exactly ⊢
      exact move.exact notLost exactly
  · intro leaving
    rw [sameWatcher] at leaving
    exact move.active_of_active (accounted.active leaving)

theorem accounted_watcher {action : Client.WatcherAction} (accounted : handoff.Accounted)
    (keeps : handoff.keepsControl env (.inr action) = true)
    (stepped : handoff.step env (.inr action) = some next) : next.Accounted := by
  obtain ⟨exactly, active⟩ := accounted
  rw [step] at stepped
  cases acted : Client.cursorLeaveWatcher env.client.peerAddr action handoff.watcher
      handoff.client with
  | none =>
      rw [acted] at stepped
      cases stepped
  | some result =>
      obtain ⟨watcher, client⟩ := result
      simp only [acted, Option.some.injEq] at stepped
      subst stepped
      cases Client.watcherTurn acted with
      | look notSent notSending seenActive =>
          constructor
          · rw [settled, if_neg notSent] at exactly
            rw [settled, if_neg notSending]
            exact exactly
          · intro leaving
            rcases seenActive leaving with isActive | wasLeaving
            · exact isActive
            · exact active wasLeaving
      | @send exitY isLeaving =>
          have wasActive : handoff.client.active = true := active (by simp [isLeaving])
          have room : handoff.client.txOut.items.length < Client.outboundChannelBound :=
            of_decide_eq_true keeps
          have accepted := Mailbox.items_offer_of_room room (.releaseControl exitY)
          constructor
          · rw [settled, if_neg (by simp [isLeaving])] at exactly
            rw [settled, if_pos rfl]
            convert exactly.release wasActive using 1
            refine Tokens.ext rfl rfl rfl ?_
            simp [tokens, Tokens.deactivated, releases, accepted, isReleaseControl]
            omega
          · intro _
            exact wasActive
      | clear isSent =>
          constructor
          · rw [settled, if_pos isSent] at exactly
            rw [settled, if_neg (by simp)]
            exact exactly
          · intro leaving
            exact absurd rfl leaving

/-- In a run whose steps all keep control, control is never stranded. -/
theorem control_never_stranded (env : HandoffEnv) (statusTx : Option Client.ClientStatus)
    (labels : List (HandoffLabel ⊕ Client.WatcherAction))
    (along : Along (step env) (fun handoff label => handoff.keepsControl env label = true)
      (start env statusTx) labels) :
    Throughout (step env) NotStranded (start env statusTx) labels := by
  have initial : (start env statusTx).Accounted := by
    constructor
    · constructor
      · intro _
        rfl
      · intro isRemote
        cases isRemote
    · intro leaving
      exact absurd rfl leaving
  refine Throughout.mono (fun _ => Accounted.notStranded) ?_
  refine throughout_of_along ?_ initial along
  intro state label next accounted keeps stepped
  cases label with
  | inl label => exact accounted_move accounted keeps stepped
  | inr action => exact accounted_watcher accounted keeps stepped

/-- The watcher has sent its release and not yet cleared `active` when control
comes back to the client. -/
def storeBehindTakeControl : List (HandoffLabel ⊕ Client.WatcherAction) :=
  (crossOver 100).map .inl ++ [.inr .load, .inr (.poll (some (0, 300))), .inr .trySend] ++
    (bringBack 200).map .inl ++ (crossOver 300).map .inl ++ [.inr .store]

/-- The late store clears the flag that the second `TakeControl` set. -/
theorem not_notStranded_storeBehindTakeControl :
    ∃ final, exec (step singleClient) (start singleClient none)
        storeBehindTakeControl = some final ∧
      final.tokens = ⟨.remoteActive, 0, false, 0⟩ ∧ ¬ final.NotStranded := by
  have run : (exec (step singleClient) (start singleClient none)
      storeBehindTakeControl).map tokens = some ⟨.remoteActive, 0, false, 0⟩ := by
    decide
  obtain ⟨final, reached, outcome⟩ := Option.map_eq_some_iff.mp run
  refine ⟨final, reached, outcome, fun somewhere => ?_⟩
  obtain ⟨isRemote, noTakes, inactive, noReleases⟩ := Tokens.mk.inj outcome
  rcases somewhere isRemote with take | active | release
  · exact absurd noTakes (Nat.ne_of_gt take)
  · exact absurd (active.symm.trans inactive) (by decide)
  · exact absurd noReleases (Nat.ne_of_gt release)

/-- The same with the store before control comes back. -/
def storeBeforeTakeControl : List (HandoffLabel ⊕ Client.WatcherAction) :=
  (crossOver 100).map .inl ++
    [.inr .load, .inr (.poll (some (0, 300))), .inr .trySend, .inr .store] ++
      (bringBack 200).map .inl ++ (crossOver 300).map .inl

theorem control_never_stranded_storeBeforeTakeControl :
    ∃ final, exec (step singleClient) (start singleClient none)
        storeBeforeTakeControl = some final ∧
      final.tokens = ⟨.remoteActive, 0, true, 0⟩ ∧ final.NotStranded := by
  have run : (exec (step singleClient) (start singleClient none)
      storeBeforeTakeControl).map tokens = some ⟨.remoteActive, 0, true, 0⟩ := by
    decide
  obtain ⟨final, reached, outcome⟩ := Option.map_eq_some_iff.mp run
  have throughout :=
    control_never_stranded singleClient none storeBeforeTakeControl (by decide)
  exact ⟨final, reached, outcome, final_of_throughout throughout reached⟩

end Kmwarp.Handoff
