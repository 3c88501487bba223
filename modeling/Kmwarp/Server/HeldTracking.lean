import Kmwarp.Foundation.Runs
import Kmwarp.Server.Brain

/-!
# The tracker and the outbound channel

A brain run records every message offered to the outbound channel and whether
it was accepted.  While nothing is dropped the tracker is the set of keys the
peer holds; under drops it covers them until a needed release is lost.
-/

namespace Kmwarp.Server

open Foundation Wire

/-- One iteration of the brain: its input, the clock, and the outcome of each
`try_send` in order. -/
structure BrainLabel where
  input : BrainInput
  nowMs : Nat
  outcomes : List Bool

structure BrainRun where
  brain : Brain
  offered : List (Message × Bool)

/-- The messages a step offers, with their outcomes. -/
def offers (effects : List Effect) (outcomes : List Bool) : List (Message × Bool) :=
  (sends effects).zip outcomes

def BrainRun.start (env : BrainEnv) : BrainRun := ⟨.new env, []⟩

/-- A step needs one outcome for each message it offers. -/
def BrainRun.step (env : BrainEnv) (run : BrainRun) (label : BrainLabel) :
    Option BrainRun :=
  let (brain, effects) := run.brain.step env label.input label.nowMs
  if label.outcomes.length = (sends effects).length then
    some ⟨brain, run.offered ++ offers effects label.outcomes⟩
  else none

/-- The messages the outbound channel took. -/
def accepted (offered : List (Message × Bool)) : List Message :=
  offered.filterMap fun entry => if entry.2 then some entry.1 else none

@[simp] theorem accepted_nil : accepted [] = [] := rfl

@[simp] theorem accepted_append (first second : List (Message × Bool)) :
    accepted (first ++ second) = accepted first ++ accepted second :=
  List.filterMap_append

@[simp] theorem accepted_cons (msg : Message) (outcome : Bool)
    (offered : List (Message × Bool)) :
    accepted ((msg, outcome) :: offered) =
      (if outcome then [msg] else []) ++ accepted offered := by
  cases outcome <;> rfl

theorem BrainRun.step_eq_some {env : BrainEnv} {run next : BrainRun}
    {label : BrainLabel} :
    run.step env label = some next ↔
      label.outcomes.length =
          (sends (run.brain.step env label.input label.nowMs).2).length ∧
        next = ⟨(run.brain.step env label.input label.nowMs).1,
          run.offered ++
            offers (run.brain.step env label.input label.nowMs).2 label.outcomes⟩ := by
  simp only [step]
  split
  · rename_i sameLength
    simp [sameLength, eq_comm]
  · rename_i otherLength
    simp [otherLength]

/-! ## No drops -/

theorem accepted_zip_of_all {msgs : List Message} {outcomes : List Bool}
    (sameLength : outcomes.length = msgs.length)
    (all : ∀ outcome ∈ outcomes, outcome = true) :
    accepted (msgs.zip outcomes) = msgs := by
  induction msgs generalizing outcomes with
  | nil => rfl
  | cons msg msgs ih =>
      cases outcomes with
      | nil => cases sameLength
      | cons outcome outcomes =>
          obtain ⟨isAccepted, rest⟩ := List.forall_mem_cons.mp all
          rw [List.zip_cons_cons, accepted_cons, isAccepted,
            ih (Nat.succ.inj sameLength) rest]
          rfl

/-- Nothing has been dropped, the tracker is what the peer holds, and nothing
is held while the Mac drives. -/
structure Faithful (run : BrainRun) : Prop where
  tracks : run.brain.held.Tracks (keyLog (accepted run.offered))
  localEmpty : run.brain.sm.state = .localActive → ∀ hid, hid ∉ run.brain.held

theorem faithful_start (env : BrainEnv) : Faithful (.start env) where
  tracks := HeldKeys.tracks_new
  localEmpty _ hid := HeldKeys.not_mem_new hid

/-- Executing an action keeps the tracker exact if all its messages reach the peer. -/
theorem tracks_executeAction {held : HeldKeys} {log : List (KeyTransition UInt16)}
    (tracks : held.Tracks log) (remote : String) (modRemap : ModRemap) (action : Action) :
    (executeAction remote modRemap held action).1.Tracks
      (log ++ keyLog (sends (executeAction remote modRemap held action).2)) := by
  cases action with
  | sendMessage msg =>
      simpa [executeAction, Effect.sent?] using HeldKeys.tracks_trackKey tracks _
  | startSwallow | stopSwallow =>
      simpa [executeAction, drainHeldToPeer, Effect.sent?, ← keyLog_drainMessages,
        ← sends_drain] using HeldKeys.tracks_drain tracks
  | sendTakeControl | sendReleaseControl | warpLocalCursor | hideLocalCursor
  | showLocalCursor =>
      simpa [executeAction, Effect.sent?, keyTransition] using tracks

theorem tracks_performAll {env : BrainEnv} {brain : Brain} {actions : List Action}
    {log : List (KeyTransition UInt16)} (tracks : brain.held.Tracks log) :
    (brain.performAll env actions).1.held.Tracks
      (log ++ keyLog (sends (brain.performAll env actions).2)) := by
  induction actions generalizing brain log with
  | nil => simpa [Brain.performAll] using tracks
  | cons action actions ih =>
      have first := tracks_executeAction tracks env.remote env.modRemap action
      simpa [Brain.performAll, Brain.perform] using
        @ih (brain.perform env action).1 _ first

theorem tracks_step {env : BrainEnv} {brain : Brain} {log : List (KeyTransition UInt16)}
    (tracks : brain.held.Tracks log) (input : BrainInput) (nowMs : Nat) :
    (brain.step env input nowMs).1.held.Tracks
      (log ++ keyLog (sends (brain.step env input nowMs).2)) := by
  have received : (brain.receive env input nowMs).1.held.Tracks log := by
    rw [(brain.received env input nowMs).sameHeld]
    exact tracks
  exact tracks_performAll received

/-- Leaving empties the tracker, and only forwarding fills it. -/
theorem localEmpty_of_turn {env : BrainEnv} {brain next : Brain} {input : BrainInput}
    {effects : List Effect} (turn : BrainTurn env brain input next effects)
    (localEmpty : brain.sm.state = .localActive → ∀ hid, hid ∉ brain.held) :
    next.sm.state = .localActive → ∀ hid, hid ∉ next.held := by
  intro isLocal
  rcases turn.of_local isLocal with ⟨_, _, drained, _⟩ | ⟨wasLocal, sameHeld, _⟩
  · rw [drained]
    exact HeldKeys.not_mem_drained brain.held
  · rw [sameHeld]
    exact localEmpty wasLocal

theorem faithful_step {env : BrainEnv} {run next : BrainRun} {label : BrainLabel}
    (faithful : Faithful run) (all : ∀ outcome ∈ label.outcomes, outcome = true)
    (stepped : run.step env label = some next) : Faithful next := by
  obtain ⟨sameLength, rfl⟩ := BrainRun.step_eq_some.mp stepped
  have turn := run.brain.turn env label.input label.nowMs
  constructor
  · rw [accepted_append, offers, accepted_zip_of_all sameLength all, keyLog_append]
    exact tracks_step faithful.tracks label.input label.nowMs
  · exact localEmpty_of_turn turn faithful.localEmpty

/-- With nothing held while the Mac drives, a step that starts swallowing sends
its `TakeControl` alone. -/
theorem sends_of_startSwallow {env : BrainEnv} {brain : Brain} {input : BrainInput}
    {nowMs : Nat}
    (localEmpty : brain.sm.state = .localActive → ∀ hid, hid ∉ brain.held)
    (starts : .startSwallow ∈ (brain.receive env input nowMs).2) :
    ∃ entryY, sends (brain.step env input nowMs).2 = [.takeControl entryY] := by
  have received := brain.received env input nowMs
  rw [Brain.step]
  generalize brain.receive env input nowMs = result at received starts
  obtain ⟨next, actions⟩ := result
  cases received with
  | @crossing _ _ _ backX backY entryY wasLocal _ sameHeld =>
      have nothing : drainMessages next.held = [] :=
        drainMessages_eq_nil (sameHeld ▸ localEmpty wasLocal)
      refine ⟨entryY, ?_⟩
      simp [Brain.performAll, Brain.perform, executeAction, Effect.sent?, nothing]
  | forwarding _ _ => simp at starts
  | leaving _ _ _ => simp at starts
  | silent _ _ => simp at starts

/-- In every run in which no send is dropped, the tracker is exactly the set
of keys left pressed by the key events enqueued so far.  That set is empty
while the Mac drives, so the drain of `StartSwallow` sends nothing: crossing
enqueues the `TakeControl` alone. -/
theorem tracker_is_pressed_set (env : BrainEnv) (labels : List BrainLabel)
    (final : BrainRun)
    (run : exec (BrainRun.step env) (.start env) labels = some final)
    (noDrop : ∀ label ∈ labels, ∀ outcome ∈ label.outcomes, outcome = true) :
    (∀ hid, hid ∈ final.brain.held ↔ Pressed (keyLog (accepted final.offered)) hid) ∧
      (final.brain.sm.state = .localActive →
        ∀ hid, ¬ Pressed (keyLog (accepted final.offered)) hid) ∧
      ∀ input nowMs, .startSwallow ∈ (final.brain.receive env input nowMs).2 →
        ∃ entryY, sends (final.brain.step env input nowMs).2 = [.takeControl entryY] := by
  have preserved : ∀ state label next, Faithful state →
      (∀ outcome ∈ label.outcomes, outcome = true) →
      BrainRun.step env state label = some next → Faithful next :=
    fun _ _ _ => faithful_step
  have faithful : Faithful final :=
    final_of_throughout
      (throughout_of_along preserved (faithful_start env) (along_of_forall noDrop)) run
  refine ⟨faithful.tracks, fun isLocal hid pressed => ?_, fun input nowMs starts => ?_⟩
  · exact faithful.localEmpty isLocal hid ((faithful.tracks hid).mpr pressed)
  · exact sends_of_startSwallow faithful.localEmpty starts

/-- Cross, press Cmd, and return with Cmd held. -/
def heldAtReturn : List BrainLabel :=
  [⟨.source (.cursorAt 1919 300), 100, [true]⟩,
    ⟨.source (.key Usage.leftGui .down {}), 110, [true]⟩,
    ⟨.wireMessage (.releaseControl 300), 200, [true]⟩]

/-- Cmd is pressed on the peer as Ctrl, and released when control returns. -/
theorem tracker_is_pressed_set_held_at_return :
    ∃ final, exec (BrainRun.step singleDisplay) (.start singleDisplay) heldAtReturn =
        some final ∧
      final.offered =
        [(.takeControl 300, true), (.keyEvent Usage.leftCtrl KeyStateCode.down 0, true),
          (.keyEvent Usage.leftCtrl KeyStateCode.up 0, true)] ∧
      ∀ hid, hid ∈ final.brain.held ↔ Pressed (keyLog (accepted final.offered)) hid :=
  ⟨_, rfl, by decide,
    (tracker_is_pressed_set singleDisplay heldAtReturn _ rfl (by simp [heldAtReturn])).1⟩

/-! ## Drops -/

/-- The peer is left pressing the key by what the channel took. -/
def PeerHolds (run : BrainRun) (hid : UInt16) : Prop :=
  Pressed (keyLog (accepted run.offered)) hid

instance (run : BrainRun) (hid : UInt16) : Decidable (PeerHolds run hid) :=
  inferInstanceAs (Decidable (Pressed _ _))

/-- Every key the peer holds can still be released by a drain. -/
def Sound (run : BrainRun) : Prop :=
  ∀ hid, PeerHolds run hid → hid ∈ run.brain.held

/-- While the peer drives, neither a forwarded release nor a drained one is
refused for a key that the peer holds. -/
def KeepsReleases (env : BrainEnv) (run : BrainRun) (label : BrainLabel) : Prop :=
  run.brain.sm.state = .remoteActive →
    match label.input with
    | .source (.key hidUsage .up _) =>
        label.outcomes = [false] → ¬ PeerHolds run (env.modRemap.applyToHid hidUsage)
    | .wireMessage (.releaseControl _) =>
        ∀ hid, (hid, false) ∈ run.brain.held.drain.1.zip label.outcomes →
          ¬ PeerHolds run hid
    | _ => True

/-- With one outcome for each of some distinct keys, a key has not been
accepted exactly when it is not listed or has been refused. -/
private theorem not_accepted_iff {hids : List UInt16} {outcomes : List Bool}
    (distinct : hids.Nodup) (sameLength : outcomes.length = hids.length)
    (hid : UInt16) :
    (hid, true) ∉ hids.zip outcomes ↔ (hid ∈ hids → (hid, false) ∈ hids.zip outcomes) := by
  induction hids generalizing outcomes with
  | nil => simp
  | cons head hids ih =>
      cases outcomes with
      | nil => cases sameLength
      | cons outcome outcomes =>
          obtain ⟨fresh, distinct⟩ := List.nodup_cons.mp distinct
          have rest := ih distinct (Nat.succ.inj sameLength)
          by_cases same : hid = head
          · subst same
            have notLater : ∀ result, (hid, result) ∉ hids.zip outcomes :=
              fun result member => fresh (List.of_mem_zip member).1
            cases outcome <;> simp [notLater]
          · simpa [same] using rest

private theorem keyLog_accepted_releases (hids : List UInt16) (outcomes : List Bool) :
    keyLog (accepted ((hids.map releaseMessage).zip outcomes)) =
      releases ((hids.zip outcomes).filterMap fun entry =>
        if entry.2 then some entry.1 else none) := by
  induction hids generalizing outcomes with
  | nil => rfl
  | cons hid hids ih =>
      cases outcomes with
      | nil => rfl
      | cons outcome outcomes =>
          have isRelease : keyTransition (releaseMessage hid) = some ⟨hid, false⟩ := rfl
          cases outcome with
          | false => simpa using ih outcomes
          | true =>
              simp only [List.map_cons, List.zip_cons_cons, accepted_cons, if_true,
                List.singleton_append, keyLog_cons, isRelease, ih outcomes, releases,
                Option.toList_some, List.filterMap_cons]

/-- After a drain the peer still holds the keys whose release was refused. -/
theorem pressed_accepted_drain {held : HeldKeys} {outcomes : List Bool}
    (sameLength : outcomes.length = (drainMessages held).length)
    (log : List (KeyTransition UInt16)) (hid : UInt16) :
    Pressed (log ++ keyLog (accepted ((drainMessages held).zip outcomes))) hid ↔
      Pressed log hid ∧ (hid ∈ held → (hid, false) ∈ held.drain.1.zip outcomes) := by
  have distinct : held.drain.1.Nodup :=
    held.drain_ascending.imp fun less => UInt16.ne_of_lt less
  rw [drainMessages, List.length_map] at sameLength
  rw [drainMessages, keyLog_accepted_releases, pressed_append_releases,
    ← HeldKeys.mem_drain, ← not_accepted_iff distinct sameLength]
  simp [List.mem_filterMap]

/-- A forwarded message keeps the tracker sound unless it is a refused release
of a key the peer holds. -/
theorem sound_forward_iff {run : BrainRun} (sound : Sound run) (msg : Message)
    (outcome : Bool) :
    Sound ⟨{ run.brain with held := run.brain.held.trackKey msg },
        run.offered ++ [(msg, outcome)]⟩ ↔
      ∀ hid, keyTransition msg = some ⟨hid, false⟩ → outcome = false →
        ¬ PeerHolds run hid := by
  constructor
  · intro covered hid isRelease refused holds
    subst refused
    have member : hid ∈ run.brain.held.trackKey msg :=
      covered hid (by simpa [PeerHolds] using holds)
    rw [HeldKeys.mem_trackKey, isRelease] at member
    simp at member
  · intro keeps hid holds
    change hid ∈ run.brain.held.trackKey msg
    rw [HeldKeys.mem_trackKey]
    cases transition : keyTransition msg with
    | none =>
        cases outcome <;> exact sound hid (by simpa [PeerHolds, transition] using holds)
    | some event =>
        by_cases same : event.key = hid
        · simp only [if_pos same]
          cases outcome with
          | true => simpa [PeerHolds, transition, pressed_concat, same] using holds
          | false =>
              by_contra notDown
              have isRelease : keyTransition msg = some ⟨hid, false⟩ := by
                rw [transition, ← same, ← Bool.eq_false_iff.mpr notDown]
              exact keeps hid isRelease rfl (by simpa [PeerHolds] using holds)
        · simp only [if_neg same]
          cases outcome with
          | true =>
              exact sound hid
                (by simpa [PeerHolds, transition, pressed_concat, same] using holds)
          | false => exact sound hid (by simpa [PeerHolds] using holds)

/-- Releasing keys on the peer by a drain keeps the tracker sound unless a
refused release is of a key the peer holds. -/
theorem sound_drain_iff {run : BrainRun} {next : Brain} {outcomes : List Bool}
    (sound : Sound run) (drained : next.held = run.brain.held.drain.2)
    (sameLength : outcomes.length = (drainMessages run.brain.held).length) :
    Sound ⟨next, run.offered ++ (drainMessages run.brain.held).zip outcomes⟩ ↔
      ∀ hid, (hid, false) ∈ run.brain.held.drain.1.zip outcomes →
        ¬ PeerHolds run hid := by
  have after : ∀ hid,
      PeerHolds ⟨next, run.offered ++ (drainMessages run.brain.held).zip outcomes⟩ hid ↔
        PeerHolds run hid ∧
          (hid ∈ run.brain.held → (hid, false) ∈ run.brain.held.drain.1.zip outcomes) := by
    intro hid
    rw [PeerHolds, accepted_append, keyLog_append, pressed_accepted_drain sameLength]
    rfl
  have nothingTracked : ∀ hid, hid ∉ next.held := by
    rw [drained]
    exact HeldKeys.not_mem_drained _
  constructor
  · intro covered hid refused holds
    exact nothingTracked hid (covered hid ((after hid).mpr ⟨holds, fun _ => refused⟩))
  · intro keeps hid holds
    obtain ⟨held, refused⟩ := (after hid).mp holds
    exact absurd held (keeps hid (refused (sound hid held)))

/-- A step keeps the tracker sound exactly when it keeps the releases. -/
theorem sound_step_iff {env : BrainEnv} {run next : BrainRun} {label : BrainLabel}
    (localEmpty : run.brain.sm.state = .localActive → ∀ hid, hid ∉ run.brain.held)
    (sound : Sound run) (stepped : run.step env label = some next) :
    Sound next ↔ KeepsReleases env run label := by
  obtain ⟨sameLength, rfl⟩ := BrainRun.step_eq_some.mp stepped
  obtain ⟨input, nowMs, outcomes⟩ := label
  have turn := run.brain.turn env input nowMs
  simp only at sameLength ⊢
  generalize run.brain.step env input nowMs = result at sameLength turn ⊢
  obtain ⟨brain, effects⟩ := result
  simp only [offers] at sameLength turn ⊢
  cases turn with
  | crossing wasLocal _ drained =>
      have empty := localEmpty wasLocal
      refine iff_of_true (fun hid holds => absurd ?_ (empty hid)) fun _ => trivial
      refine sound hid ?_
      obtain ⟨outcome, rfl⟩ : ∃ outcome, outcomes = [outcome] := by
        rw [← List.length_eq_one_iff]
        simpa [Effect.sent?, drainMessages_eq_nil empty] using sameLength
      cases outcome <;>
        simpa [PeerHolds, Effect.sent?, drainMessages_eq_nil empty, keyTransition]
          using holds
  | @forwarding event msg converted isRemote =>
      obtain ⟨outcome, rfl⟩ : ∃ outcome, outcomes = [outcome] := by
        rw [← List.length_eq_one_iff]
        simpa [Effect.sent?] using sameLength
      simp only [sends_cons, sends_nil, Effect.sent?, Option.toList_some, List.append_nil,
        List.zip_cons_cons, List.zip_nil_right]
      rw [sound_forward_iff sound]
      cases event with
      | cursorAt x y => cases converted
      | mouseRel dx dy | mouseButton button state | mouseWheel dx dy =>
          cases converted
          simp [KeepsReleases, remapKeyMessage, keyTransition]
      | key hidUsage state mods =>
          cases converted
          cases state <;>
            simp [KeepsReleases, remapKeyMessage, keyTransition, isRemote]
  | leaving wasRemote _ drained =>
      simp only [sends_append, sends_cons, sends_drain, sends_nil, Effect.sent?,
        Option.toList_none, List.append_nil] at sameLength ⊢
      rw [sound_drain_iff sound drained sameLength]
      simp [KeepsReleases, wasRemote]
  | silent _ sameHeld =>
      have noOutcome : outcomes = [] := List.length_eq_zero_iff.mp sameLength
      subst noOutcome
      have same : Sound ⟨brain, run.offered⟩ := fun hid holds => by
        change hid ∈ brain.held
        rw [sameHeld]
        exact sound hid holds
      refine iff_of_true (by simpa using same) fun _ => ?_
      cases input with
      | source event =>
          rcases event with _ | _ | _ | ⟨hidUsage, state, mods⟩ | _
          case key => cases state <;> simp
          all_goals trivial
      | wireMessage msg => cases msg <;> simp

/-- A run keeps the tracker sound in all its states exactly when none of its
steps loses a release that the peer needs. -/
theorem sound_throughout_iff (env : BrainEnv) (labels : List BrainLabel) :
    Throughout (BrainRun.step env) Sound (.start env) labels ↔
      Along (BrainRun.step env) (KeepsReleases env) (.start env) labels := by
  have kept : ∀ state label next,
      (state.brain.sm.state = .localActive → ∀ hid, hid ∉ state.brain.held) →
      BrainRun.step env state label = some next →
      next.brain.sm.state = .localActive → ∀ hid, hid ∉ next.brain.held := by
    intro state label next localEmpty stepped
    obtain ⟨_, rfl⟩ := BrainRun.step_eq_some.mp stepped
    exact localEmpty_of_turn (state.brain.turn env label.input label.nowMs) localEmpty
  have initial : Sound (.start env) := fun hid holds => absurd holds (not_pressed_nil hid)
  exact throughout_iff_along kept (fun _ _ _ => sound_step_iff)
    (faithful_start env).localEmpty initial

/-- Ctrl goes down on the peer, its release is refused, and the tracker has
already forgotten it. -/
theorem not_sound_after_refused_release :
    ∃ final, exec (BrainRun.step singleDisplay) (.start singleDisplay)
        [⟨.source (.cursorAt 1919 300), 100, [true]⟩,
          ⟨.source (.key Usage.leftGui .down {}), 110, [true]⟩,
          ⟨.source (.key Usage.leftGui .up {}), 120, [false]⟩] = some final ∧
      PeerHolds final Usage.leftCtrl ∧ Usage.leftCtrl ∉ final.brain.held ∧
      ¬ Sound final := by
  refine ⟨_, rfl, by decide, by decide, fun sound => ?_⟩
  exact absurd (sound Usage.leftCtrl (by decide)) (by decide)

end Kmwarp.Server
