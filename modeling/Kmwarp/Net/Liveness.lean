import Kmwarp.Core.Wire.Message
import Kmwarp.Foundation.Runs
import Kmwarp.Foundation.Watchdog

/-!
# Heartbeats and the silence deadline

One direction of a session: a ticker queues heartbeats among the other frames, and at the
other end every frame that is read is a signal to the deadline watcher.  Times are in
milliseconds.
-/

namespace Kmwarp.Net

open Foundation Wire

def heartbeatPeriod : Nat := 500

def silenceDeadline : Nat := 2000

/-- `inFlight` are the frames that have not been read, with the times at which they were
queued.  The watcher is polled at `polledAt` and, after that, frames are read at `heardAt`
at the latest; `queuedAt` is the time of the last frame, and `dropped` counts the heartbeats
lost since the last one that was queued. -/
structure Liveness where
  now : Nat
  due : Nat
  seq : UInt32
  inFlight : List (Nat × Message)
  watcher : Watchdog
  queuedAt : Nat
  dropped : Nat
  heardAt : Nat
  polledAt : Nat
deriving DecidableEq

/-- `tick` says whether `try_send` found room, and `send` is a frame of another task. -/
inductive LivenessLabel where
  | pass (time : Nat)
  | tick (accepted : Bool)
  | send (msg : Message)
  | read
  | poll
deriving DecidableEq

namespace Liveness

/-- The ticker's first tick is due at once. -/
def start (now : Nat) : Liveness where
  now := now
  due := now
  seq := 0
  inFlight := []
  watcher := .start silenceDeadline now
  queuedAt := now
  dropped := 0
  heardAt := now
  polledAt := now

/-- The tick after one that is taken now: missed ticks are skipped. -/
def nextDue (due now : Nat) : Nat :=
  due + heartbeatPeriod * ((now - due) / heartbeatPeriod + 1)

def queue (session : Liveness) (msg : Message) : Liveness :=
  { session with
    inFlight := session.inFlight ++ [(session.now, msg)]
    queuedAt := session.now }

/-- The session ends when the watcher expires. -/
def step (session : Liveness) (label : LivenessLabel) : Option Liveness :=
  if session.watcher.expired then none
  else
    match label with
    | .pass time => some { session with now := session.now + time }
    | .tick accepted =>
        if session.due ≤ session.now then
          let ticked :=
            { session with
              due := nextDue session.due session.now
              seq := session.seq + 1 }
          if accepted then
            some { ticked.queue (.heartbeat session.seq) with dropped := 0 }
          else some { ticked with dropped := session.dropped + 1 }
        else none
    | .send msg => some (session.queue msg)
    | .read =>
        match session.inFlight with
        | [] => none
        | _ :: inFlight =>
            some { session with
              inFlight := inFlight
              watcher := session.watcher.signal
              heardAt := session.now }
    | .poll =>
        some { session with
          watcher := session.watcher.poll silenceDeadline session.now
          polledAt := session.now }

/-! ## What the watcher says about the peer -/

/-- The watcher expires only in silence. -/
def Sound (session : Liveness) : Prop :=
  session.watcher.Sound silenceDeadline session.heardAt session.now

/-- The watcher is polled within `lag` of the poll before. -/
def Polled (lag : Nat) (session : Liveness) : Prop :=
  session.now ≤ session.polledAt + lag

def Prompt (lag : Nat) (session : Liveness) : Prop :=
  session.polledAt ≤ session.now ∧
    session.watcher.Prompt silenceDeadline lag session.heardAt session.polledAt

variable {session next : Liveness} {label : LivenessLabel} {lag : Nat}

/-- What a step does to the watcher and its clock. -/
theorem step_watcher (stepped : session.step label = some next) :
    session.watcher.expired = false ∧
      ((∃ time, next.now = session.now + time ∧ next.watcher = session.watcher ∧
          next.heardAt = session.heardAt ∧ next.polledAt = session.polledAt) ∨
        (next.now = session.now ∧ next.watcher = session.watcher.signal ∧
          next.heardAt = session.now ∧ next.polledAt = session.polledAt) ∨
        next.now = session.now ∧
          next.watcher = session.watcher.poll silenceDeadline session.now ∧
          next.heardAt = session.heardAt ∧ next.polledAt = session.now) := by
  cases alive : session.watcher.expired with
  | true => simp [step, alive] at stepped
  | false =>
      refine ⟨rfl, ?_⟩
      unfold step at stepped
      rw [alive, if_neg Bool.false_ne_true] at stepped
      cases label with
      | pass time =>
          cases stepped
          exact .inl ⟨time, rfl, rfl, rfl, rfl⟩
      | tick accepted =>
          obtain ⟨_, taken⟩ := Option.ite_none_right_eq_some.mp stepped
          cases accepted <;> cases taken <;> exact .inl ⟨0, rfl, rfl, rfl, rfl⟩
      | send msg =>
          cases stepped
          exact .inl ⟨0, rfl, rfl, rfl, rfl⟩
      | read =>
          cases inFlight : session.inFlight with
          | nil => simp [inFlight] at stepped
          | cons frame rest =>
              simp only [inFlight] at stepped
              cases stepped
              exact .inr (.inl ⟨rfl, rfl, rfl, rfl⟩)
      | poll =>
          cases stepped
          exact .inr (.inr ⟨rfl, rfl, rfl, rfl⟩)

theorem sound_start (began : Nat) : (start began).Sound :=
  Watchdog.sound_start silenceDeadline began

theorem Sound.step (sound : session.Sound) (stepped : session.step label = some next) :
    next.Sound := by
  obtain ⟨alive, passed | heard | polled⟩ := step_watcher stepped
  · obtain ⟨time, now, watcher, heardAt, _⟩ := passed
    rw [Sound, now, watcher, heardAt]
    exact Watchdog.Sound.pass sound time
  · obtain ⟨now, watcher, heardAt, _⟩ := heard
    rw [Sound, now, watcher, heardAt]
    exact Watchdog.sound_signal silenceDeadline session.now alive
  · obtain ⟨now, watcher, heardAt, _⟩ := polled
    rw [Sound, now, watcher, heardAt]
    exact Watchdog.Sound.poll sound

theorem Prompt.step (prompt : session.Prompt lag) (soon : session.Polled lag)
    (stepped : session.step label = some next) : next.Prompt lag := by
  obtain ⟨before, watcherPrompt⟩ := prompt
  obtain ⟨alive, passed | heard | polled⟩ := step_watcher stepped
  · obtain ⟨time, now, watcher, heardAt, polledAt⟩ := passed
    rw [Prompt, now, watcher, heardAt, polledAt]
    exact ⟨Nat.le_trans before (Nat.le_add_right _ _), watcherPrompt⟩
  · obtain ⟨now, watcher, heardAt, polledAt⟩ := heard
    rw [Prompt, now, watcher, heardAt, polledAt]
    exact ⟨before, Watchdog.prompt_signal silenceDeadline lag before⟩
  · obtain ⟨now, watcher, heardAt, polledAt⟩ := polled
    rw [Prompt, now, watcher, heardAt, polledAt]
    exact ⟨Nat.le_refl _, Watchdog.Prompt.poll (by decide) watcherPrompt soon⟩

/-- In every run the watcher expires only if nothing has been read for the deadline.  If it
is always polled within `lag`, it is not late by more than twice that. -/
theorem watcher_detects_silence (lag : Nat) {began : Nat} {labels : List LivenessLabel}
    {final : Liveness} (run : exec step (start began) labels = some final) :
    (final.watcher.expired = true → final.heardAt + silenceDeadline ≤ final.now) ∧
      (Throughout step (Polled lag) (start began) labels → final.watcher.expired = false →
        final.now ≤ final.heardAt + silenceDeadline + 2 * lag) := by
  constructor
  · have sound : final.Sound :=
      invariant_of_exec (fun _ _ _ sound stepped => sound.step stepped)
        (sound_start began) run
    exact sound.late
  · intro polled alive
    have initial : (start began).Prompt lag :=
      ⟨Nat.le_refl _, Watchdog.prompt_start (by decide) lag began⟩
    have always := polled.preserve
      (fun _ _ _ soon prompt _ stepped => prompt.step soon stepped) initial
    obtain ⟨soon, prompt⟩ := final_of_throughout always run
    exact prompt.2.now_le alive soon

/-- A peer that says nothing, with a watcher that is polled every second. -/
def silence : List LivenessLabel :=
  [.pass 1000, .poll, .pass 1000, .poll]

theorem watcher_detects_silence_atTwoSeconds : ∃ final,
    exec step (start 7) silence = some final ∧
      final.watcher.expired = true ∧ final.heardAt + silenceDeadline ≤ final.now := by
  obtain ⟨final, run⟩ := Option.isSome_iff_exists.mp
    (show (exec step (start 7) silence).isSome = true by decide)
  have expired : (exec step (start 7) silence).map (·.watcher.expired) = some true := by
    decide
  rw [run] at expired
  exact ⟨final, run, Option.some.inj expired,
    (watcher_detects_silence 1000 run).1 (Option.some.inj expired)⟩

/-! ## A live peer -/

/-- The bounds that a live peer and its connection keep: how late a tick is taken, how long
a frame takes, and how many heartbeats in a row are lost for want of room. -/
structure Terms where
  lateness : Nat
  delay : Nat
  drops : Nat
deriving DecidableEq

/-- The longest time between two frames that are queued. -/
def Terms.gap (terms : Terms) : Nat :=
  (terms.drops + 1) * (heartbeatPeriod + terms.lateness)

def Timely (terms : Terms) (session : Liveness) : Prop :=
  session.now ≤ session.due + terms.lateness ∧ session.dropped ≤ terms.drops ∧
    ∀ frame ∈ session.inFlight, session.now ≤ frame.1 + terms.delay

instance (terms : Terms) : DecidablePred (Timely terms) := fun session =>
  inferInstanceAs (Decidable (_ ∧ _ ∧ ∀ frame ∈ session.inFlight, _))

/-- Each frame was queued within `gap` of the one before, the first of them within `gap` of
`time`, and the last frame of all was queued at `last`. -/
def Spaced (gap : Nat) : Nat → List (Nat × Message) → Nat → Prop
  | time, [], last => last ≤ time
  | time, frame :: frames, last => frame.1 ≤ time + gap ∧ Spaced gap frame.1 frames last

/-- The next tick is due in time after the heartbeats that were lost, and the frames in
flight are spaced out from what has been heard. -/
def Live (terms : Terms) (session : Liveness) : Prop :=
  session.heardAt ≤ session.now ∧ session.queuedAt ≤ session.now ∧
    session.due ≤ session.queuedAt + heartbeatPeriod +
      session.dropped * (heartbeatPeriod + terms.lateness) ∧
    (∀ frame ∈ session.inFlight, frame.1 ≤ session.now) ∧
    Spaced terms.gap session.heardAt session.inFlight session.queuedAt

theorem Spaced.mono {gap time later last : Nat} {frames : List (Nat × Message)}
    (spaced : Spaced gap time frames last) (after : time ≤ later) :
    Spaced gap later frames last := by
  cases frames with
  | nil => exact Nat.le_trans spaced after
  | cons frame frames =>
      exact ⟨Nat.le_trans spaced.1 (Nat.add_le_add_right after gap), spaced.2⟩

theorem Spaced.concat {gap time last now : Nat} {frames : List (Nat × Message)}
    (spaced : Spaced gap time frames last) (soon : now ≤ last + gap) (msg : Message) :
    Spaced gap time (frames ++ [(now, msg)]) now := by
  induction frames generalizing time with
  | nil => exact ⟨Nat.le_trans soon (Nat.add_le_add_right spaced gap), Nat.le_refl now⟩
  | cons frame frames ih => exact ⟨spaced.1, ih spaced.2⟩

variable {terms : Terms}

/-- While the ticker is on time, the last frame is not long ago. -/
theorem now_le_queuedAt (timely : session.Timely terms) (live : session.Live terms) :
    session.now ≤ session.queuedAt + terms.gap := by
  obtain ⟨late, dropped, _⟩ := timely
  obtain ⟨_, _, due, _⟩ := live
  have lost : session.dropped * (heartbeatPeriod + terms.lateness) ≤
      terms.drops * (heartbeatPeriod + terms.lateness) :=
    Nat.mul_le_mul_right _ dropped
  have gap : terms.gap = terms.drops * (heartbeatPeriod + terms.lateness) +
      (heartbeatPeriod + terms.lateness) :=
    Nat.succ_mul _ _
  omega

/-- A live peer has been heard within the gap and the delay of a frame. -/
theorem now_le_heardAt (timely : session.Timely terms) (live : session.Live terms) :
    session.now ≤ session.heardAt + terms.gap + terms.delay := by
  have queued := now_le_queuedAt timely live
  obtain ⟨_, _, onTheWay⟩ := timely
  obtain ⟨_, _, _, _, spaced⟩ := live
  cases inFlight : session.inFlight with
  | nil =>
      rw [inFlight] at spaced
      have heard : session.queuedAt ≤ session.heardAt := spaced
      omega
  | cons frame frames =>
      rw [inFlight] at spaced
      have first : frame.1 ≤ session.heardAt + terms.gap := spaced.1
      have arriving := onTheWay frame (by simp [inFlight])
      omega

theorem nextDue_le {due now : Nat} (ready : due ≤ now) :
    nextDue due now ≤ now + heartbeatPeriod := by
  simp only [nextDue, heartbeatPeriod]
  omega

theorem Live.queue (live : session.Live terms) (timely : session.Timely terms)
    (msg : Message) : (session.queue msg).Live terms := by
  have soon := now_le_queuedAt timely live
  obtain ⟨heard, queued, due, past, spaced⟩ := live
  refine ⟨heard, Nat.le_refl _, ?_, ?_, spaced.concat soon msg⟩
  · exact Nat.le_trans due (by simp only [Liveness.queue]; omega)
  · exact List.forall_mem_append.mpr ⟨past, by simp [Liveness.queue]⟩

theorem Live.step (live : session.Live terms) (timely : session.Timely terms)
    (stepped : session.step label = some next) : next.Live terms := by
  have soon := now_le_queuedAt timely live
  have ⟨heard, queued, due, past, spaced⟩ := live
  have ⟨late, _, _⟩ := timely
  have alive := (step_watcher stepped).1
  unfold Liveness.step at stepped
  rw [alive, if_neg Bool.false_ne_true] at stepped
  cases label with
  | pass time =>
      cases stepped
      have later : session.now ≤ session.now + time := Nat.le_add_right _ _
      exact ⟨Nat.le_trans heard later, Nat.le_trans queued later, due,
        fun frame member => Nat.le_trans (past frame member) later, spaced⟩
  | tick accepted =>
      obtain ⟨ready, taken⟩ := Option.ite_none_right_eq_some.mp stepped
      have ahead := nextDue_le ready
      cases accepted with
      | true =>
          cases taken
          refine ⟨heard, Nat.le_refl _, ?_, ?_, spaced.concat soon _⟩
          · simpa [Liveness.queue] using ahead
          · exact List.forall_mem_append.mpr ⟨past, by simp [Liveness.queue]⟩
      | false =>
          cases taken
          refine ⟨heard, queued, ?_, past, spaced⟩
          have more : (session.dropped + 1) * (heartbeatPeriod + terms.lateness) = _ :=
            Nat.succ_mul _ _
          simp only [more]
          omega
  | send msg =>
      cases stepped
      exact live.queue timely msg
  | read =>
      cases inFlight : session.inFlight with
      | nil => simp [inFlight] at stepped
      | cons frame frames =>
          simp only [inFlight] at stepped
          cases stepped
          rw [inFlight] at past spaced
          obtain ⟨here, later⟩ := List.forall_mem_cons.mp past
          exact ⟨Nat.le_refl _, queued, due, later, Spaced.mono spaced.2 here⟩
  | poll =>
      cases stepped
      exact live

/-- A live peer is never declared dead.  In every run in which ticks are late by at most
`lateness`, frames are read within `delay` of being queued and at most `drops` heartbeats in
a row are lost, the watcher does not expire, if these bounds leave room in the deadline. -/
theorem live_peer_never_dead (terms : Terms) {began : Nat} {labels : List LivenessLabel}
    (room : terms.gap + terms.delay < silenceDeadline)
    (timely : Throughout step (Timely terms) (start began) labels) :
    Throughout step (fun session => session.watcher.expired = false) (start began) labels := by
  have live : (start began).Live terms :=
    ⟨Nat.le_refl _, Nat.le_refl _, by simp [start], nofun, Nat.le_refl _⟩
  have preserved : ∀ (session : Liveness) label (next : Liveness), session.Timely terms →
      session.Live terms ∧ session.Sound → next.Timely terms →
        session.step label = some next → next.Live terms ∧ next.Sound :=
    fun _ _ _ onTime invariant _ stepped =>
      ⟨invariant.1.step onTime stepped, invariant.2.step stepped⟩
  have always := timely.preserve preserved ⟨live, sound_start began⟩
  refine always.mono ?_
  rintro session ⟨onTime, live, sound⟩
  have heard := now_le_heardAt onTime live
  by_contra expired
  have silent := sound.late (by simpa using expired)
  omega

/-- Ticks up to 20 ms late, frames up to 900 ms under way, one heartbeat lost. -/
def relaxed : Terms := ⟨20, 900, 1⟩

/-- A heartbeat that arrives, one that is lost, and one that arrives late. -/
def lossy : List LivenessLabel :=
  [.tick true, .pass 10, .read, .poll, .pass 500, .tick false, .pass 500, .tick true,
    .pass 490, .tick true, .pass 310, .read, .poll]

theorem live_peer_never_dead_lossy :
    Throughout step (fun session => session.watcher.expired = false) (start 0) lossy :=
  live_peer_never_dead relaxed (by decide) (by decide)

end Liveness

end Kmwarp.Net
