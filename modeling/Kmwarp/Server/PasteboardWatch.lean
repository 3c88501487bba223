import Kmwarp.Foundation.History
import Kmwarp.Foundation.Mailbox
import Kmwarp.Server.PasteboardEcho

/-!
# Pasteboard watcher

An application that copies clears the pasteboard, which raises its change count, and then sets
its string, which does not.  The watcher polls the count on a thread of its own, and dropping
the handle joins that thread.
-/

namespace Kmwarp.Server

open Foundation

/-- Where `watch_loop` is: in `recv_timeout`, behind it, with the change count read, in
`blocking_send`, or done. -/
inductive WatchPc where
  | waiting
  | ticking
  | counted (cc : Nat)
  | sending (text : String)
  | exited
deriving DecidableEq

/-- The text that the watcher is about to send. -/
def WatchPc.sending? : WatchPc → Option String
  | .sending text => some text
  | _ => none

/-- `halfway` says that the pasteboard has been cleared for a copy that is not set yet,
`consumed` is what `next_change` has returned, and `dropped` that the handle is joining the
watcher. -/
structure PasteboardWatch where
  changeCount : Nat
  string : Option String
  halfway : Bool
  pc : WatchPc
  seededCc : Nat
  lastCc : Nat
  changes : Mailbox clipboardEventBound String
  consumed : List String
  dropped : Bool

/-- A copy without a string, such as an image, sets none. -/
inductive PasteboardWatchLabel where
  | clearContents
  | setString (text : Option String)
  | recvTimeout
  | readCount
  | readString
  | blockingSend
  | nextChange
  | drop
deriving DecidableEq

namespace PasteboardWatch

/-- The watcher seeds its count, maybe in the middle of a copy. -/
def start (changeCount : Nat) (string : Option String) (halfway : Bool) : PasteboardWatch where
  changeCount := changeCount
  string := string
  halfway := halfway
  pc := .waiting
  seededCc := changeCount
  lastCc := changeCount
  changes := .empty
  consumed := []
  dropped := false

def step (watch : PasteboardWatch) : PasteboardWatchLabel → Option PasteboardWatch
  | .clearContents =>
      some { watch with
        changeCount := watch.changeCount + 1
        string := none
        halfway := true }
  | .setString text =>
      if watch.halfway then some { watch with string := text, halfway := false } else none
  | .recvTimeout =>
      match watch.pc with
      | .waiting =>
          -- the sender of the shutdown channel is gone
          if watch.dropped then some { watch with pc := .exited }
          else some { watch with pc := .ticking }
      | _ => none
  | .readCount =>
      match watch.pc with
      | .ticking => some { watch with pc := .counted watch.changeCount }
      | _ => none
  | .readString =>
      match watch.pc with
      | .counted cc =>
          if cc = watch.lastCc then some { watch with pc := .waiting }
          else
            match watch.string with
            | none => some { watch with lastCc := cc, pc := .waiting }
            | some text => some { watch with lastCc := cc, pc := .sending text }
      | _ => none
  | .blockingSend =>
      match watch.pc with
      | .sending text =>
          -- the receiver outlives the join, so that the send cannot fail
          (watch.changes.trySend text).map fun changes =>
            { watch with changes := changes, pc := .waiting }
      | _ => none
  | .nextChange =>
      if watch.dropped then none
      else
        match watch.changes.recv with
        | none => none
        | some (text, changes) =>
            some { watch with changes := changes, consumed := watch.consumed ++ [text] }
  | .drop => if watch.dropped then none else some { watch with dropped := true }

/-- The texts that the watcher has picked up, in order. -/
def pickedUp (watch : PasteboardWatch) : List String :=
  watch.consumed ++ watch.changes.items ++ watch.pc.sending?.toList

/-- If the watcher is up to date, the text on the pasteboard is the last one it picked up, or
belongs to the count that the watcher was seeded with. -/
def HandsOver (watch : PasteboardWatch) : Prop :=
  watch.lastCc = watch.changeCount → watch.changeCount ≠ watch.seededCc →
    ∀ text ∈ watch.string, watch.pickedUp.getLast? = some text

/-- A copy is not completed behind the watcher's back: the watcher has not yet looked at its
change count, unless the text is the one that it picked up last or the copy was in progress
when the watcher was seeded. -/
def CompletesUnseen (watch : PasteboardWatch) : PasteboardWatchLabel → Prop
  | .setString text =>
      watch.lastCc = watch.changeCount → watch.changeCount ≠ watch.seededCc →
        ∀ copied ∈ text, watch.pickedUp.getLast? = some copied
  | _ => True

/-- The counts never run ahead of the pasteboard, and only a dropped handle ends the
watcher. -/
structure Sound (watch : PasteboardWatch) : Prop where
  last : watch.lastCc ≤ watch.changeCount
  counted : ∀ cc, watch.pc = .counted cc → cc ≤ watch.changeCount
  alive : watch.pc = .exited → watch.dropped = true

theorem sound_start (changeCount : Nat) (string : Option String) (halfway : Bool) :
    (start changeCount string halfway).Sound where
  last := Nat.le_refl _
  counted := nofun
  alive := nofun

variable {watch next : PasteboardWatch}

/-- What a step of the watcher does. -/
inductive WatchTurn (watch : PasteboardWatch) :
    PasteboardWatchLabel → PasteboardWatch → Prop where
  | exits (isWaiting : watch.pc = .waiting) (isDropped : watch.dropped = true) :
      WatchTurn watch .recvTimeout { watch with pc := .exited }
  | ticks (isWaiting : watch.pc = .waiting) (live : watch.dropped = false) :
      WatchTurn watch .recvTimeout { watch with pc := .ticking }
  | counts (isTicking : watch.pc = .ticking) :
      WatchTurn watch .readCount { watch with pc := .counted watch.changeCount }
  | stands (isCounted : watch.pc = .counted watch.lastCc) :
      WatchTurn watch .readString { watch with pc := .waiting }
  | ignores {cc : Nat} (isCounted : watch.pc = .counted cc) (moved : cc ≠ watch.lastCc)
      (noString : watch.string = none) :
      WatchTurn watch .readString { watch with lastCc := cc, pc := .waiting }
  | picks {cc : Nat} {text : String} (isCounted : watch.pc = .counted cc)
      (moved : cc ≠ watch.lastCc) (isString : watch.string = some text) :
      WatchTurn watch .readString { watch with lastCc := cc, pc := .sending text }
  | sends {text : String} {changes : Mailbox clipboardEventBound String}
      (isSending : watch.pc = .sending text)
      (accepted : watch.changes.trySend text = some changes) :
      WatchTurn watch .blockingSend { watch with changes := changes, pc := .waiting }

/-- The steps of the watcher's thread. -/
def isWatcher : PasteboardWatchLabel → Bool
  | .recvTimeout | .readCount | .readString | .blockingSend => true
  | _ => false

theorem watchTurn {label : PasteboardWatchLabel} (isStep : isWatcher label = true)
    (stepped : watch.step label = some next) : WatchTurn watch label next := by
  cases label with
  | clearContents | setString | nextChange | drop => cases isStep
  | recvTimeout =>
      simp only [step] at stepped
      split at stepped
      · rename_i isWaiting
        split at stepped
        · rename_i isDropped
          cases stepped
          exact .exits isWaiting isDropped
        · rename_i live
          cases stepped
          exact .ticks isWaiting (Bool.eq_false_iff.mpr live)
      · cases stepped
  | readCount =>
      simp only [step] at stepped
      split at stepped
      · rename_i isTicking
        cases stepped
        exact .counts isTicking
      · cases stepped
  | readString =>
      simp only [step] at stepped
      split at stepped
      · rename_i cc isCounted
        split at stepped
        · rename_i same
          cases stepped
          exact .stands (same ▸ isCounted)
        · rename_i moved
          split at stepped
          · rename_i noString
            cases stepped
            exact .ignores isCounted moved noString
          · rename_i text isString
            cases stepped
            exact .picks isCounted moved isString
      · cases stepped
  | blockingSend =>
      simp only [step] at stepped
      split at stepped
      · rename_i text isSending
        obtain ⟨changes, accepted, rfl⟩ := Option.map_eq_some_iff.mp stepped
        exact .sends isSending accepted
      · cases stepped

/-! ## No copy is missed -/

theorem sound_watcher {label : PasteboardWatchLabel} (sound : watch.Sound)
    (turn : WatchTurn watch label next) : next.Sound := by
  obtain ⟨last, counted, alive⟩ := sound
  cases turn with
  | exits _ isDropped => exact ⟨last, nofun, fun _ => isDropped⟩
  | ticks | stands | sends => exact ⟨last, nofun, nofun⟩
  | counts =>
      refine ⟨last, ?_, nofun⟩
      rintro _ ⟨⟩
      exact Nat.le_refl _
  | ignores isCounted | picks isCounted => exact ⟨counted _ isCounted, nofun, nofun⟩

theorem sound_step {label : PasteboardWatchLabel} (sound : watch.Sound)
    (stepped : watch.step label = some next) : next.Sound := by
  cases label with
  | recvTimeout | readCount | readString | blockingSend =>
      exact sound_watcher sound (watchTurn rfl stepped)
  | clearContents =>
      cases stepped
      exact {
        last := Nat.le_succ_of_le sound.last
        counted := fun cc isCounted => Nat.le_succ_of_le (sound.counted cc isCounted)
        alive := sound.alive }
  | setString text =>
      obtain ⟨_, set⟩ := Option.ite_none_right_eq_some.mp stepped
      cases set
      exact { sound with }
  | nextChange =>
      simp only [step] at stepped
      split at stepped
      · cases stepped
      · split at stepped
        · cases stepped
        · cases stepped
          exact { sound with }
  | drop =>
      obtain ⟨_, dropped⟩ := Option.ite_none_left_eq_some.mp stepped
      cases dropped
      exact { sound with alive := fun _ => rfl }

/-- A step of the watcher picks up the text that it finds, or nothing. -/
theorem handsOver_watcher {label : PasteboardWatchLabel} (handsOver : watch.HandsOver)
    (turn : WatchTurn watch label next) : next.HandsOver := by
  cases turn with
  | exits pc | ticks pc | counts pc | stands pc =>
      simpa [HandsOver, pickedUp, pc, WatchPc.sending?] using handsOver
  | ignores _ _ noString =>
      intro _ _ text isString
      rw [noString] at isString
      cases isString
  | picks _ _ isString =>
      intro _ _ text member
      rw [isString] at member
      cases member
      exact List.getLast?_concat
  | sends isSending accepted =>
      simpa [HandsOver, pickedUp, isSending, WatchPc.sending?, Mailbox.items_trySend accepted]
        using handsOver

theorem handsOver_step_iff {label : PasteboardWatchLabel} (sound : watch.Sound)
    (handsOver : watch.HandsOver) (stepped : watch.step label = some next) :
    next.HandsOver ↔ watch.CompletesUnseen label := by
  cases label with
  | recvTimeout | readCount | readString | blockingSend =>
      exact iff_of_true (handsOver_watcher handsOver (watchTurn rfl stepped)) trivial
  | clearContents =>
      cases stepped
      refine iff_of_true (fun upToDate _ => ?_) trivial
      have last := sound.last
      exact absurd upToDate (Nat.ne_of_lt (Nat.lt_succ_of_le last))
  | setString text =>
      obtain ⟨_, set⟩ := Option.ite_none_right_eq_some.mp stepped
      cases set
      exact Iff.rfl
  | nextChange =>
      simp only [step] at stepped
      split at stepped
      · cases stepped
      · split at stepped
        · cases stepped
        · rename_i text changes received
          cases stepped
          refine iff_of_true ?_ trivial
          simpa [HandsOver, pickedUp, Mailbox.items_recv received] using handsOver
  | drop =>
      obtain ⟨_, dropped⟩ := Option.ite_none_left_eq_some.mp stepped
      cases dropped
      exact iff_of_true handsOver trivial

/-- The watcher goes on, and the outbound task takes what it sends. -/
def isSettling (label : PasteboardWatchLabel) : Bool :=
  isWatcher label || label = .nextChange

/-- The pasteboard is left alone while the watcher and the outbound task get there. -/
structure Onward (watch last : PasteboardWatch) : Prop where
  run : ∃ labels, (∀ label ∈ labels, isSettling label = true) ∧
    exec step watch labels = some last
  changeCount : last.changeCount = watch.changeCount
  string : last.string = watch.string
  dropped : last.dropped = watch.dropped

namespace Onward

variable {last : PasteboardWatch}

theorem refl (watch : PasteboardWatch) : Onward watch watch :=
  ⟨⟨[], nofun, rfl⟩, rfl, rfl, rfl⟩

theorem trans (first : Onward watch next) (second : Onward next last) : Onward watch last := by
  obtain ⟨labels, settling, run⟩ := first.run
  obtain ⟨later, settlingLater, runLater⟩ := second.run
  refine ⟨⟨labels ++ later, ?_, ?_⟩, second.changeCount.trans first.changeCount,
    second.string.trans first.string, second.dropped.trans first.dropped⟩
  · intro label member
    rcases List.mem_append.mp member with before | after
    · exact settling label before
    · exact settlingLater label after
  · rw [exec_append, run]
    exact runLater

theorem of_step {label : PasteboardWatchLabel} (settling : isSettling label = true)
    (stepped : watch.step label = some next)
    (same : next.changeCount = watch.changeCount ∧ next.string = watch.string ∧
      next.dropped = watch.dropped) : Onward watch next :=
  ⟨⟨[label], by simpa using settling, exec_cons_eq_some.mpr ⟨next, stepped, rfl⟩⟩,
    same.1, same.2.1, same.2.2⟩

end Onward

/-- The outbound task empties the channel. -/
theorem exists_onward_drained (live : watch.dropped = false) :
    ∃ last, Onward watch last ∧ last.pc = watch.pc ∧ last.lastCc = watch.lastCc ∧
      last.changes.items = [] := by
  induction items : watch.changes.items generalizing watch with
  | nil => exact ⟨watch, .refl watch, rfl, rfl, items⟩
  | cons text later ih =>
      obtain ⟨changes, received, rest⟩ := Mailbox.recv_of_items items
      let next : PasteboardWatch :=
        { watch with changes := changes, consumed := watch.consumed ++ [text] }
      have stepped : watch.step .nextChange = some next := by
        simp [step, live, received, next]
      obtain ⟨last, onward, pc, lastCc, empty⟩ := ih (show next.dropped = false from live) rest
      have first := Onward.of_step rfl stepped ⟨rfl, rfl, rfl⟩
      exact ⟨last, first.trans onward, pc, lastCc, empty⟩

theorem exists_onward_sending {text : String} (live : watch.dropped = false)
    (isSending : watch.pc = .sending text) :
    ∃ last, Onward watch last ∧ last.pc = .waiting ∧ last.lastCc = watch.lastCc := by
  obtain ⟨drained, onward, pc, lastCc, empty⟩ := exists_onward_drained live
  have room : drained.changes.items.length < clipboardEventBound := by
    rw [empty]
    decide
  obtain ⟨changes, accepted, _⟩ := Mailbox.trySend_of_room room text
  have stepped : drained.step .blockingSend =
      some { drained with changes := changes, pc := .waiting } := by
    simp [step, pc, isSending, accepted]
  exact ⟨_, onward.trans (.of_step rfl stepped ⟨rfl, rfl, rfl⟩), rfl, lastCc⟩

theorem exists_onward_counted {cc : Nat} (live : watch.dropped = false)
    (isCounted : watch.pc = .counted cc) :
    ∃ last, Onward watch last ∧ last.pc = .waiting ∧ last.lastCc = cc := by
  by_cases same : cc = watch.lastCc
  · have stepped : watch.step .readString = some { watch with pc := .waiting } := by
      simp [step, isCounted, same]
    exact ⟨_, .of_step rfl stepped ⟨rfl, rfl, rfl⟩, rfl, same.symm⟩
  · cases string : watch.string with
    | none =>
        have stepped : watch.step .readString =
            some { watch with lastCc := cc, pc := .waiting } := by
          simp [step, isCounted, same, string]
        exact ⟨_, .of_step rfl stepped ⟨rfl, rfl, rfl⟩, rfl, rfl⟩
    | some text =>
        let next : PasteboardWatch := { watch with lastCc := cc, pc := .sending text }
        have stepped : watch.step .readString = some next := by
          simp [step, isCounted, same, string, next]
        obtain ⟨last, onward, pc, lastCc⟩ :=
          exists_onward_sending (show next.dropped = false from live) rfl
        exact ⟨last, (Onward.of_step rfl stepped ⟨rfl, rfl, rfl⟩).trans onward, pc, lastCc⟩

theorem exists_onward_ticking (live : watch.dropped = false) (isTicking : watch.pc = .ticking) :
    ∃ last, Onward watch last ∧ last.pc = .waiting ∧ last.lastCc = watch.changeCount := by
  let next : PasteboardWatch := { watch with pc := .counted watch.changeCount }
  have stepped : watch.step .readCount = some next := by
    simp [step, isTicking, next]
  obtain ⟨last, onward, pc, lastCc⟩ :=
    exists_onward_counted (show next.dropped = false from live) rfl
  exact ⟨last, (Onward.of_step rfl stepped ⟨rfl, rfl, rfl⟩).trans onward, pc, lastCc⟩

theorem exists_onward_waiting (live : watch.dropped = false) (isWaiting : watch.pc = .waiting) :
    ∃ last, Onward watch last ∧ last.pc = .waiting ∧ last.lastCc = watch.changeCount := by
  let next : PasteboardWatch := { watch with pc := .ticking }
  have stepped : watch.step .recvTimeout = some next := by
    simp [step, isWaiting, live, next]
  obtain ⟨last, onward, pc, lastCc⟩ :=
    exists_onward_ticking (show next.dropped = false from live) rfl
  exact ⟨last, (Onward.of_step rfl stepped ⟨rfl, rfl, rfl⟩).trans onward, pc, lastCc⟩

/-- Once nobody copies, the watcher gets up to date and the channel empty. -/
theorem exists_onward_upToDate (sound : watch.Sound) (live : watch.dropped = false) :
    ∃ last, Onward watch last ∧ last.pc = .waiting ∧ last.lastCc = last.changeCount ∧
      last.changes.items = [] := by
  obtain ⟨ready, toReady, readyPc⟩ : ∃ ready, Onward watch ready ∧ ready.pc = .waiting := by
    cases pc : watch.pc with
    | waiting => exact ⟨watch, .refl watch, pc⟩
    | ticking =>
        obtain ⟨ready, onward, isWaiting, _⟩ := exists_onward_ticking live pc
        exact ⟨ready, onward, isWaiting⟩
    | counted =>
        obtain ⟨ready, onward, isWaiting, _⟩ := exists_onward_counted live pc
        exact ⟨ready, onward, isWaiting⟩
    | sending =>
        obtain ⟨ready, onward, isWaiting, _⟩ := exists_onward_sending live pc
        exact ⟨ready, onward, isWaiting⟩
    | exited =>
        rw [sound.alive pc] at live
        cases live
  obtain ⟨seen, toSeen, seenPc, seenCc⟩ :=
    exists_onward_waiting (toReady.dropped.trans live) readyPc
  obtain ⟨last, toLast, lastPc, lastCc, empty⟩ :=
    exists_onward_drained (toSeen.dropped.trans (toReady.dropped.trans live))
  refine ⟨last, toReady.trans (toSeen.trans toLast), lastPc.trans seenPc, ?_, empty⟩
  rw [lastCc, seenCc, toLast.changeCount, toSeen.changeCount]

theorem seededCc_step {label : PasteboardWatchLabel} (stepped : watch.step label = some next) :
    next.seededCc = watch.seededCc := by
  cases label with
  | recvTimeout | readCount | readString | blockingSend =>
      cases watchTurn rfl stepped <;> rfl
  | clearContents =>
      cases stepped
      rfl
  | setString =>
      obtain ⟨_, set⟩ := Option.ite_none_right_eq_some.mp stepped
      cases set
      rfl
  | nextChange =>
      simp only [step] at stepped
      split at stepped
      · cases stepped
      · split at stepped <;> cases stepped
        rfl
  | drop =>
      obtain ⟨_, dropped⟩ := Option.ite_none_left_eq_some.mp stepped
      cases dropped
      rfl

/-- While nobody copies, the watcher goes on handing over. -/
theorem Onward.handsOver {last : PasteboardWatch} (onward : Onward watch last)
    (sound : watch.Sound) (handsOver : watch.HandsOver) : last.HandsOver := by
  obtain ⟨labels, settling, run⟩ := onward.run
  have preserved : ∀ watch label next, (Sound watch ∧ HandsOver watch) →
      isSettling label = true → step watch label = some next →
        Sound next ∧ HandsOver next := by
    rintro watch label next ⟨sound, handsOver⟩ isSettle stepped
    refine ⟨sound_step sound stepped, (handsOver_step_iff sound handsOver stepped).mpr ?_⟩
    cases label with
    | setString => cases isSettle
    | _ => trivial
  have always : Along step (fun _ label => isSettling label = true) watch labels :=
    along_of_forall settling
  exact (final_of_throughout (throughout_of_along preserved ⟨sound, handsOver⟩ always) run).2

/-- The watcher misses no copy begun after its start, except one that is completed after it has
looked at its change count: exactly then there is a state in which it is up to date with a
text that is not the last one it picked up.  When nobody copies for a while, the outbound
task gets the text that is on the pasteboard, as the last one. -/
theorem watcher_misses_no_copy (changeCount : Nat) (string : Option String) (halfway : Bool)
    (labels : List PasteboardWatchLabel) :
    (Throughout step HandsOver (start changeCount string halfway) labels ↔
      Along step CompletesUnseen (start changeCount string halfway) labels) ∧
    ∀ final, exec step (start changeCount string halfway) labels = some final →
      final.dropped = false → ∃ last, Onward final last ∧ last.lastCc = last.changeCount ∧
        last.pickedUp = last.consumed ∧
        (Along step CompletesUnseen (start changeCount string halfway) labels →
          final.changeCount ≠ changeCount → ∀ text ∈ final.string,
            last.consumed.getLast? = some text) := by
  have sound := sound_start changeCount string halfway
  have kept : ∀ watch label next, Sound watch → step watch label = some next → Sound next :=
    fun _ _ _ => sound_step
  have handsOverAt : (start changeCount string halfway).HandsOver :=
    fun _ moved => absurd rfl moved
  have noneMissed : Throughout step HandsOver (start changeCount string halfway) labels ↔
      Along step CompletesUnseen (start changeCount string halfway) labels :=
    throughout_iff_along kept (fun _ _ _ => handsOver_step_iff) sound handsOverAt
  refine ⟨noneMissed, fun final run live => ?_⟩
  have finalSound := invariant_of_exec kept sound run
  obtain ⟨last, onward, pc, upToDate, empty⟩ := exists_onward_upToDate finalSound live
  have settled : last.pickedUp = last.consumed := by
    simp [pickedUp, pc, empty, WatchPc.sending?]
  refine ⟨last, onward, upToDate, settled, fun along moved text isString => ?_⟩
  have handsOver := onward.handsOver finalSound
    (final_of_throughout (noneMissed.mpr along) run)
  have seeded : last.seededCc = changeCount := by
    have same : ∀ watch label next, watch.seededCc = changeCount →
        step watch label = some next → next.seededCc = changeCount :=
      fun _ _ _ before stepped => (seededCc_step stepped).trans before
    obtain ⟨quiet, _, ran⟩ := onward.run
    exact invariant_of_exec same (invariant_of_exec same rfl run) ran
  rw [← settled]
  refine handsOver upToDate ?_ text (onward.string ▸ isString)
  rw [onward.changeCount, seeded]
  exact moved

/-- The string is set when the watcher has already found none. -/
example : (exec step (start 0 none false) [.clearContents, .recvTimeout, .readCount, .readString,
      .setString (some "x")]).map (fun watch => (watch.lastCc, watch.changeCount, watch.pickedUp)) =
    some (1, 1, []) := by
  decide

/-! ## Dropping the handle -/

/-- The steps a watcher takes at most before it has exited, once its handle is dropped. -/
def remaining : WatchPc → Nat
  | .exited => 0
  | .waiting => 1
  | .sending _ => 2
  | .counted _ => 3
  | .ticking => 4

theorem remaining_le (pc : WatchPc) : remaining pc ≤ 4 := by
  cases pc <;> simp [remaining]

/-- The watcher waits for room in a channel that nobody receives from, and the handle for the
watcher. -/
def Blocked (watch : PasteboardWatch) : Prop :=
  watch.dropped = true ∧ watch.pc.sending? ≠ none ∧
    ¬ watch.changes.items.length < clipboardEventBound

/-- A dropped handle stays dropped, and its channel is not received from. -/
theorem dropped_step {label : PasteboardWatchLabel} (dropped : watch.dropped = true)
    (stepped : watch.step label = some next) :
    next.dropped = true ∧
      (isWatcher label = true ∧ WatchTurn watch label next ∨
        isWatcher label = false ∧ next.pc = watch.pc ∧ next.changes = watch.changes) := by
  cases label with
  | recvTimeout | readCount | readString | blockingSend =>
      have turn := watchTurn rfl stepped
      refine ⟨?_, .inl ⟨rfl, turn⟩⟩
      cases turn <;> exact dropped
  | clearContents =>
      cases stepped
      exact ⟨dropped, .inr ⟨rfl, rfl, rfl⟩⟩
  | setString =>
      obtain ⟨_, set⟩ := Option.ite_none_right_eq_some.mp stepped
      cases set
      exact ⟨dropped, .inr ⟨rfl, rfl, rfl⟩⟩
  | nextChange | drop => simp [step, dropped] at stepped

theorem remaining_step {label : PasteboardWatchLabel} (dropped : watch.dropped = true)
    (stepped : watch.step label = some next) :
    remaining next.pc + (isWatcher label).toNat ≤ remaining watch.pc := by
  rcases (dropped_step dropped stepped).2 with ⟨isStep, turn⟩ | ⟨notStep, pc, _⟩
  · rw [isStep]
    cases turn with
    | exits pc => simp [pc, remaining]
    | ticks pc live =>
        rw [dropped] at live
        cases live
    | counts pc | stands pc | ignores pc | picks pc | sends pc => simp [pc, remaining]
  · simp [notStep, pc]

/-- The channel has room for what the watcher may still send. -/
def HasRoom (watch : PasteboardWatch) : Prop :=
  watch.changes.items.length < clipboardEventBound ∨ remaining watch.pc ≤ 1

theorem hasRoom_step {label : PasteboardWatchLabel} (dropped : watch.dropped = true)
    (room : watch.HasRoom) (stepped : watch.step label = some next) : next.HasRoom := by
  rcases (dropped_step dropped stepped).2 with ⟨_, turn⟩ | ⟨_, pc, changes⟩
  · cases turn with
    | exits => exact .inr (Nat.zero_le 1)
    | stands | ignores | sends => exact .inr (Nat.le_refl 1)
    | ticks pc live =>
        rw [dropped] at live
        cases live
    | counts pc | picks pc =>
        refine .inl (room.resolve_right ?_)
        simp [pc, remaining]
  · rw [HasRoom, pc, changes]
    exact room

theorem blocked_step {label : PasteboardWatchLabel} (blocked : watch.Blocked)
    (stepped : watch.step label = some next) : next.Blocked := by
  obtain ⟨dropped, sending, full⟩ := blocked
  obtain ⟨stillDropped, ⟨_, turn⟩ | ⟨_, pc, changes⟩⟩ := dropped_step dropped stepped
  · cases turn with
    | exits pc | ticks pc | counts pc | stands pc | ignores pc | picks pc =>
        simp [pc, WatchPc.sending?] at sending
    | sends _ accepted =>
        rw [Mailbox.trySend_of_full full] at accepted
        cases accepted
  · exact ⟨stillDropped, pc ▸ sending, changes ▸ full⟩

/-- A watcher that has neither exited nor is blocked can go on. -/
theorem exists_step (dropped : watch.dropped = true) :
    watch.pc = .exited ∨ watch.Blocked ∨
      ∃ label next, isWatcher label = true ∧ watch.step label = some next := by
  cases pc : watch.pc with
  | exited => exact .inl rfl
  | waiting =>
      refine .inr (.inr ⟨.recvTimeout, { watch with pc := .exited }, rfl, ?_⟩)
      simp [step, pc, dropped]
  | ticking =>
      refine .inr (.inr ⟨.readCount, { watch with pc := .counted watch.changeCount }, rfl, ?_⟩)
      simp [step, pc]
  | counted cc =>
      obtain ⟨next, stepped⟩ : ∃ next, watch.step .readString = some next := by
        simp only [step, pc]
        split
        · exact ⟨_, rfl⟩
        · split <;> exact ⟨_, rfl⟩
      exact .inr (.inr ⟨.readString, next, rfl, stepped⟩)
  | sending text =>
      by_cases room : watch.changes.items.length < clipboardEventBound
      · obtain ⟨changes, accepted, _⟩ := Mailbox.trySend_of_room room text
        refine .inr (.inr ⟨.blockingSend, { watch with changes := changes, pc := .waiting },
          rfl, ?_⟩)
        simp [step, pc, accepted]
      · exact .inr (.inl ⟨dropped, by simp [pc, WatchPc.sending?], room⟩)

/-- Dropping the handle joins the watcher within four of its steps, each of which can be taken,
unless the watcher gets blocked; then the join never returns.  It gets blocked only if the
channel was full when the handle was dropped, and does so if it was sending then. -/
theorem join_returns_unless_blocked {watch dropped final : PasteboardWatch}
    {labels : List PasteboardWatchLabel} (dropping : watch.step .drop = some dropped)
    (run : exec step dropped labels = some final) :
    labels.countP isWatcher + remaining final.pc ≤ 4 ∧
      (final.pc = .exited ∨ final.Blocked ∨
        ∃ label next, isWatcher label = true ∧ final.step label = some next) ∧
      (watch.changes.items.length < clipboardEventBound → ¬ final.Blocked) ∧
      (¬ watch.changes.items.length < clipboardEventBound → watch.pc.sending? ≠ none →
        final.Blocked) ∧
      (final.Blocked → ∀ later last, exec step final later = some last →
        last.pc ≠ .exited) := by
  obtain ⟨_, isDropped⟩ := Option.ite_none_left_eq_some.mp dropping
  cases isDropped
  let joining : PasteboardWatch := { watch with dropped := true }
  have kept : ∀ watch label next, watch.dropped = true → step watch label = some next →
      next.dropped = true :=
    fun _ _ _ dropped stepped => (dropped_step dropped stepped).1
  have finalDropped := invariant_of_exec kept rfl run
  have staysBlocked : ∀ watch label next, Blocked watch → step watch label = some next →
      Blocked next :=
    fun _ _ _ => blocked_step
  refine ⟨?_, exists_step finalDropped, fun room => ?_, fun full sending => ?_, ?_⟩
  · have bounded := countP_add_le_of_exec kept
      (fun _ _ _ dropped stepped => remaining_step dropped stepped) rfl run
    exact Nat.le_trans bounded (remaining_le watch.pc)
  · have staysRoom : ∀ watch label next, (watch.dropped = true ∧ HasRoom watch) →
        step watch label = some next → next.dropped = true ∧ HasRoom next :=
      fun _ _ _ before stepped =>
        ⟨kept _ _ _ before.1 stepped, hasRoom_step before.1 before.2 stepped⟩
    have joiningRoom : joining.dropped = true ∧ joining.HasRoom := ⟨rfl, .inl room⟩
    obtain ⟨_, hasRoom⟩ := invariant_of_exec staysRoom joiningRoom run
    rintro ⟨_, sending, full⟩
    have few := hasRoom.resolve_left full
    cases pc : final.pc <;> simp [pc, remaining, WatchPc.sending?] at few sending
  · have joiningBlocked : joining.Blocked := ⟨rfl, sending, full⟩
    exact invariant_of_exec staysBlocked joiningBlocked run
  · intro blocked later last ran isExited
    obtain ⟨_, sending, _⟩ := invariant_of_exec staysBlocked blocked ran
    rw [isExited] at sending
    exact sending rfl

/-- The watcher has read the change count of a copy when its handle is dropped. -/
def reading : PasteboardWatch :=
  { start 0 (some "x") false with changeCount := 1, pc := .counted 1 }

theorem join_returns_unless_blocked_reading :
    ∃ dropped final, reading.step .drop = some dropped ∧
      exec step dropped [.readString, .blockingSend, .recvTimeout] = some final ∧
      final.pc = .exited ∧ final.changes.items = ["x"] ∧ ¬ final.Blocked := by
  have run : (exec step reading [.drop, .readString, .blockingSend, .recvTimeout]).map
      (fun final => (final.pc, final.changes.items)) = some (.exited, ["x"]) := by
    decide
  obtain ⟨final, reached, outcome⟩ := Option.map_eq_some_iff.mp run
  obtain ⟨dropped, dropping, ran⟩ := exec_cons_eq_some.mp reached
  obtain ⟨isExited, sent⟩ := Prod.mk.inj outcome
  obtain ⟨_, _, notBlocked, _⟩ := join_returns_unless_blocked dropping ran
  exact ⟨dropped, final, dropping, ran, isExited, sent, notBlocked (by decide)⟩

end PasteboardWatch

end Kmwarp.Server
