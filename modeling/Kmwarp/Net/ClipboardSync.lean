import Kmwarp.Client.ClipboardEcho
import Kmwarp.Foundation.Runs
import Kmwarp.Net.ClipboardOut
import Mathlib.Logic.Function.Basic

/-!
# Two clipboards kept in sync

Both machines run the same loop: a clipboard change is forwarded unless its
echo guard takes it for the echo of a remote write, and a text that arrives is
remembered by the guard and written, which is a change again.  Nothing is lost
between them, but on the clipboard of Windows a text ends at its first NUL.
-/

namespace Kmwarp

open Foundation Wire Net

inductive Machine where
  | mac
  | windows
deriving DecidableEq

def Machine.other : Machine → Machine
  | .mac => .windows
  | .windows => .mac

@[simp] theorem Machine.other_ne (machine : Machine) : machine.other ≠ machine := by
  cases machine <;> decide

@[simp] theorem Machine.ne_other (machine : Machine) : machine ≠ machine.other :=
  machine.other_ne.symm

@[simp] theorem Machine.other_other (machine : Machine) : machine.other.other = machine := by
  cases machine <;> rfl

theorem Machine.eq_or_eq_other (machine reference : Machine) :
    machine = reference ∨ machine = reference.other := by
  cases machine <;> cases reference <;> decide

/-- What a text that is put on the clipboard of the machine is there for those who read it. -/
def Machine.holds (machine : Machine) (text : String) : String :=
  match machine with
  | .mac => text
  | .windows => Client.readClipboardTextLocked (Client.writeClipboardTextLocked text)

theorem Machine.holds_of_noNul {text : String} (noNul : Char.ofNat 0 ∉ text.toList)
    (machine : Machine) : machine.holds text = text := by
  cases machine with
  | mac => rfl
  | windows =>
      have readBack := Client.readClipboardTextLocked_of_noNul noNul []
      rwa [List.append_nil] at readBack

theorem Machine.noNul_holds_windows (text : String) :
    Char.ofNat 0 ∉ (Machine.windows.holds text).toList := by
  have readBack := Client.readClipboardTextLocked_write text []
  rw [List.append_nil] at readBack
  rw [holds, readBack, String.toList_ofList]
  intro nul
  simpa using List.mem_takeWhile_imp nul

/-- One machine: its clipboard, the change events its out task has not taken
yet, the frames left of the payload being sent, and the frames in flight to
it. -/
structure ClipboardSide where
  clipboard : Option String
  events : List String
  sending : List Message
  inbox : List Message
  reassembler : Reassembler
  echoGuard : EchoGuard

abbrev ClipboardPair := Machine → ClipboardSide

/-- `copy` is a local copy; the others are steps of the out task, which takes a
change event or sends a frame, and of the in task. -/
inductive SyncLabel where
  | copy (machine : Machine) (text : String)
  | takeEvent (machine : Machine)
  | sendFrame (machine : Machine)
  | deliver (machine : Machine)
deriving DecidableEq

def SyncLabel.isCopy : SyncLabel → Bool
  | .copy .. => true
  | _ => false

namespace ClipboardSide

/-- A session starts with whatever is on the clipboard, and nothing observed. -/
def start (clipboard : Option String) : ClipboardSide where
  clipboard := clipboard
  events := []
  sending := []
  inbox := []
  reassembler := {}
  echoGuard := {}

/-- No change event is waiting, and no frame is on its way from or to the
machine. -/
def Idle (side : ClipboardSide) : Prop :=
  side.events = [] ∧ side.sending = [] ∧ side.inbox = []

instance (side : ClipboardSide) : Decidable side.Idle :=
  inferInstanceAs (Decidable (_ ∧ _))

/-- The in task on one frame.  Remembering and writing a completed text is one
step; the change event carries what is read back. -/
def ingestFrame (sha256 : List UInt8 → Bytes32) (machine : Machine) (side : ClipboardSide)
    (msg : Message) : ClipboardSide :=
  match side.reassembler.ingest msg with
  | (.ok (some text), reassembler) =>
      { side with
        reassembler := reassembler
        echoGuard := side.echoGuard.rememberRemoteWrite sha256 text
        clipboard := some (machine.holds text)
        events := side.events ++ [machine.holds text] }
  | (.ok none, reassembler) | (.error _, reassembler) =>
      { side with reassembler := reassembler }

end ClipboardSide

namespace ClipboardPair

def start (contents : Machine → Option String) : ClipboardPair :=
  fun machine => .start ((contents machine).map machine.holds)

/-- No chunk is in flight and no change event is unprocessed. -/
def Quiescent (pair : ClipboardPair) : Prop :=
  (pair .mac).Idle ∧ (pair .windows).Idle

instance (pair : ClipboardPair) : Decidable (Quiescent pair) :=
  inferInstanceAs (Decidable (_ ∧ _))

/-- Copies are made in quiescent states. -/
def step (sha256 : List UInt8 → Bytes32) (pair : ClipboardPair) :
    SyncLabel → Option ClipboardPair
  | .copy machine text =>
      if Quiescent pair then
        some (Function.update pair machine
          { pair machine with
            clipboard := some (machine.holds text)
            events := (pair machine).events ++ [machine.holds text] })
      else none
  | .takeEvent machine =>
      match (pair machine).events, (pair machine).sending with
      | text :: events, [] =>
          some (Function.update pair machine
            { pair machine with
              events := events
              sending := changeFrames sha256 (pair machine).echoGuard text })
      | _, _ => none
  | .sendFrame machine =>
      match (pair machine).sending with
      | msg :: sending =>
          let pair := Function.update pair machine { pair machine with sending := sending }
          some (Function.update pair machine.other
            { pair machine.other with inbox := (pair machine.other).inbox ++ [msg] })
      | [] => none
  | .deliver machine =>
      match (pair machine).inbox with
      | msg :: inbox =>
          some (Function.update pair machine
            ({ pair machine with inbox := inbox }.ingestFrame sha256 machine msg))
      | [] => none

/-- The machine's guard takes the text for the echo of a remote write. -/
def Flags (sha256 : List UInt8 → Bytes32) (pair : ClipboardPair) (machine : Machine)
    (text : String) : Prop :=
  (pair machine).echoGuard.isEchoOfRemote sha256 text = true

/-- Both clipboards hold the text. -/
def BothHold (pair : ClipboardPair) (text : String) : Prop :=
  (pair .mac).clipboard = some text ∧ (pair .windows).clipboard = some text

/-! ## What one step does -/

variable {sha256 : List UInt8 → Bytes32} {pair next : ClipboardPair} {machine : Machine}

theorem step_copy {text : String}
    (stepped : step sha256 pair (.copy machine text) = some next) :
    Quiescent pair ∧
      next machine =
        { pair machine with
          clipboard := some (machine.holds text)
          events := (pair machine).events ++ [machine.holds text] } ∧
      next machine.other = pair machine.other := by
  rw [step] at stepped
  split at stepped
  · rename_i quiet
    cases stepped
    exact ⟨quiet, by simp, by simp⟩
  · cases stepped

theorem step_takeEvent (stepped : step sha256 pair (.takeEvent machine) = some next) :
    ∃ text events, (pair machine).events = text :: events ∧ (pair machine).sending = [] ∧
      next machine =
        { pair machine with
          events := events
          sending := changeFrames sha256 (pair machine).echoGuard text } ∧
      next machine.other = pair machine.other := by
  rw [step] at stepped
  split at stepped
  · rename_i text events waiting idle
    cases stepped
    exact ⟨text, events, waiting, idle, by simp, by simp⟩
  · cases stepped

theorem step_sendFrame (stepped : step sha256 pair (.sendFrame machine) = some next) :
    ∃ msg sending, (pair machine).sending = msg :: sending ∧
      next machine = { pair machine with sending := sending } ∧
      next machine.other =
        { pair machine.other with inbox := (pair machine.other).inbox ++ [msg] } := by
  rw [step] at stepped
  split at stepped
  · rename_i msg sending left
    cases stepped
    exact ⟨msg, sending, left, by simp, by simp⟩
  · cases stepped

theorem step_deliver (stepped : step sha256 pair (.deliver machine) = some next) :
    ∃ msg inbox, (pair machine).inbox = msg :: inbox ∧
      next machine = { pair machine with inbox := inbox }.ingestFrame sha256 machine msg ∧
      next machine.other = pair machine.other := by
  rw [step] at stepped
  split at stepped
  · rename_i msg inbox inFlight
    cases stepped
    exact ⟨msg, inbox, inFlight, by simp, by simp⟩
  · cases stepped

end ClipboardPair

namespace ClipboardSide

variable {sha256 : List UInt8 → Bytes32} {machine : Machine} {side : ClipboardSide}
  {chunk : Chunk UInt8}

/-- A frame in the middle of a payload only grows what is assembled. -/
theorem ingestFrame_of_more {buffer : List UInt8}
    (fed : feed side.reassembler.assembly chunk = (.more, some buffer)) :
    ∃ reassembler : Reassembler, reassembler.assembly = some buffer ∧
      side.ingestFrame sha256 machine (frameOfChunk chunk) =
        { side with reassembler := reassembler } := by
  obtain ⟨reported, next⟩ :=
    Reassembler.ingest_of_chunk (chunkOf_frameOfChunk chunk) side.reassembler
  rw [fed] at reported next
  rw [ingestFrame]
  split
  · rename_i result
    rw [result] at reported
    cases reported
  · rename_i reassembler result
    rw [result] at next
    exact ⟨reassembler, next, rfl⟩
  · rename_i reassembler error result
    rw [result] at reported
    cases reported

/-- The frame that completes a text remembers and writes it. -/
theorem ingestFrame_of_done {text : String}
    (fed : feed side.reassembler.assembly chunk = (.done (asBytes text), none)) :
    ∃ reassembler : Reassembler,
      side.ingestFrame sha256 machine (frameOfChunk chunk) =
        { side with
          reassembler := reassembler
          echoGuard := side.echoGuard.rememberRemoteWrite sha256 text
          clipboard := some (machine.holds text)
          events := side.events ++ [machine.holds text] } := by
  obtain ⟨reported, _⟩ :=
    Reassembler.ingest_of_chunk (chunkOf_frameOfChunk chunk) side.reassembler
  have decoded := Reassembler.decode_asBytes text
  rw [Reassembler.decode] at decoded
  rw [fed, Reassembler.report, decoded] at reported
  rw [ingestFrame]
  split
  · rename_i found reassembler result
    rw [result] at reported
    cases reported
    exact ⟨reassembler, rfl⟩
  · rename_i reassembler result
    rw [result] at reported
    cases reported
  · rename_i reassembler error result
    rw [result] at reported
    cases reported

/-- The clipboard of Windows shows no NUL to anyone. -/
def ShowsNoNul (side : ClipboardSide) : Prop :=
  ∀ text, side.clipboard = some text → Char.ofNat 0 ∉ text.toList

theorem showsNoNul_ingestFrame (shows : side.ShowsNoNul) (msg : Message) :
    (side.ingestFrame sha256 .windows msg).ShowsNoNul := by
  rw [ingestFrame]
  split
  · rintro _ ⟨⟩
    exact Machine.noNul_holds_windows _
  · exact shows
  · exact shows

end ClipboardSide

namespace ClipboardPair

variable {sha256 : List UInt8 → Bytes32} {before pair next : ClipboardPair}
  {sender : Machine} {text : String}

theorem showsNoNul_step {label : SyncLabel} (shows : (pair .windows).ShowsNoNul)
    (stepped : step sha256 pair label = some next) : (next .windows).ShowsNoNul := by
  cases label with
  | copy machine text =>
      obtain ⟨_, here, there⟩ := step_copy stepped
      cases machine with
      | mac => exact there ▸ shows
      | windows =>
          rw [here]
          rintro _ ⟨⟩
          exact Machine.noNul_holds_windows _
  | takeEvent machine =>
      obtain ⟨_, _, _, _, here, there⟩ := step_takeEvent stepped
      cases machine with
      | mac => exact there ▸ shows
      | windows => exact here ▸ shows
  | sendFrame machine =>
      obtain ⟨_, _, _, here, there⟩ := step_sendFrame stepped
      cases machine with
      | mac => exact there ▸ shows
      | windows => exact here ▸ shows
  | deliver machine =>
      obtain ⟨msg, inbox, _, here, there⟩ := step_deliver stepped
      cases machine with
      | mac => exact there ▸ shows
      | windows =>
          rw [here]
          apply ClipboardSide.showsNoNul_ingestFrame
          exact shows

theorem showsNoNul_exec {contents : Machine → Option String} {labels : List SyncLabel}
    (run : exec (step sha256) (start contents) labels = some pair) :
    (pair .windows).ShowsNoNul := by
  have preserved : ∀ state label next, (state .windows).ShowsNoNul →
      step sha256 state label = some next → (next .windows).ShowsNoNul :=
    fun _ _ _ shows stepped => showsNoNul_step shows stepped
  have initial : (start contents .windows).ShowsNoNul := by
    intro text held
    obtain ⟨content, _, rfl⟩ := Option.map_eq_some_iff.mp held
    exact Machine.noNul_holds_windows content
  exact invariant_of_exec preserved initial run

/-! ## One copy -/

/-- How far the text copied in the state `before` has come. -/
inductive Round (sha256 : List UInt8 → Bytes32) (before : ClipboardPair) (sender : Machine)
    (text : String) (pair : ClipboardPair) : Prop where
  | copied (events : (pair sender).events = [text]) (nothingSent : (pair sender).sending = [])
      (nothingArrived : (pair sender).inbox = [])
      (holds : (pair sender).clipboard = some text)
      (sameGuard : (pair sender).echoGuard = (before sender).echoGuard)
      (otherIdle : (pair sender.other).Idle)
      (sameClipboard : (pair sender.other).clipboard = (before sender.other).clipboard)
  | suppressed (flagged : Flags sha256 before sender text) (idle : (pair sender).Idle)
      (holds : (pair sender).clipboard = some text) (otherIdle : (pair sender.other).Idle)
      (sameClipboard : (pair sender.other).clipboard = (before sender.other).clipboard)
  | transferring (unflagged : ¬ Flags sha256 before sender text)
      (chunks : List (Chunk UInt8))
      (noEvents : (pair sender).events = []) (nothingArrived : (pair sender).inbox = [])
      (holds : (pair sender).clipboard = some text)
      (otherNoEvents : (pair sender.other).events = [])
      (nothingSent : (pair sender.other).sending = [])
      (frames : (pair sender.other).inbox ++ (pair sender).sending =
        chunks.map frameOfChunk)
      (remains : Remains (pair sender.other).reassembler.assembly chunks (asBytes text))
  | arrived (unflagged : ¬ Flags sha256 before sender text) (idle : (pair sender).Idle)
      (holds : (pair sender).clipboard = some text)
      (otherEvents : (pair sender.other).events = [text])
      (otherNothingSent : (pair sender.other).sending = [])
      (otherNothingArrived : (pair sender.other).inbox = [])
      (otherHolds : (pair sender.other).clipboard = some text)
      (remembered :
        (pair sender.other).echoGuard.lastRemoteHash = some (sha256 (asBytes text)))
  | settled (unflagged : ¬ Flags sha256 before sender text) (idle : (pair sender).Idle)
      (holds : (pair sender).clipboard = some text) (otherIdle : (pair sender.other).Idle)
      (otherHolds : (pair sender.other).clipboard = some text)

theorem Quiescent.idle (quiet : Quiescent pair) (machine : Machine) :
    (pair machine).Idle := by
  cases machine with
  | mac => exact quiet.1
  | windows => exact quiet.2

theorem round_copy (noNul : Char.ofNat 0 ∉ text.toList)
    (stepped : step sha256 before (.copy sender text) = some next) :
    Round sha256 before sender text next := by
  obtain ⟨quiet, here, there⟩ := step_copy stepped
  rw [Machine.holds_of_noNul noNul] at here
  obtain ⟨noEvents, nothingSent, nothingArrived⟩ := quiet.idle sender
  refine .copied ?_ ?_ ?_ ?_ ?_ ?_ ?_
  · rw [here, noEvents]
    rfl
  · rw [here, nothingSent]
  · rw [here, nothingArrived]
  · rw [here]
  · rw [here]
  · rw [there]
    exact quiet.idle sender.other
  · rw [there]

/-- The change event of the copy is forwarded unless the guard flags it. -/
theorem round_takeEvent_sender (round : Round sha256 before sender text pair)
    (stepped : step sha256 pair (.takeEvent sender) = some next) :
    Round sha256 before sender text next := by
  obtain ⟨change, events, waiting, idle, here, there⟩ := step_takeEvent stepped
  cases round with
  | copied changes nothingSent nothingArrived holds sameGuard otherIdle sameClipboard =>
      rw [changes] at waiting
      cases waiting
      rw [sameGuard, changeFrames] at here
      by_cases flagged : Flags sha256 before sender text
      · have echo : EchoGuard.isEchoOfRemote sha256 (before sender).echoGuard text = true :=
          flagged
        rw [if_pos echo] at here
        refine .suppressed flagged ?_ ?_ ?_ ?_
        · rw [here]
          exact ⟨rfl, rfl, nothingArrived⟩
        · rw [here]
          exact holds
        · rw [there]
          exact otherIdle
        · rw [there]
          exact sameClipboard
      · have fresh : ¬ EchoGuard.isEchoOfRemote sha256 (before sender).echoGuard text = true :=
          flagged
        rw [if_neg fresh, split_eq_marked] at here
        obtain ⟨otherNoEvents, otherNothingSent, otherNothingArrived⟩ := otherIdle
        refine .transferring flagged (marked (partsOf text)) ?_ ?_ ?_ ?_ ?_ ?_ ?_
        · rw [here]
        · rw [here]
          exact nothingArrived
        · rw [here]
          exact holds
        · rw [there]
          exact otherNoEvents
        · rw [there]
          exact otherNothingSent
        · rw [here, there, otherNothingArrived]
          rfl
        · exact .inl (transmits_split text)
  | suppressed _ senderIdle | arrived _ senderIdle | settled _ senderIdle =>
      rw [senderIdle.1] at waiting
      cases waiting
  | transferring _ _ noEvents =>
      rw [noEvents] at waiting
      cases waiting

/-- The change event of the remote write is never forwarded. -/
theorem round_takeEvent_other (round : Round sha256 before sender text pair)
    (stepped : step sha256 pair (.takeEvent sender.other) = some next) :
    Round sha256 before sender text next := by
  obtain ⟨change, events, waiting, idle, here, there⟩ := step_takeEvent stepped
  rw [Machine.other_other] at there
  cases round with
  | copied _ _ _ _ _ otherIdle | suppressed _ _ _ otherIdle | settled _ _ _ otherIdle =>
      rw [otherIdle.1] at waiting
      cases waiting
  | transferring _ _ _ _ _ otherNoEvents =>
      rw [otherNoEvents] at waiting
      cases waiting
  | arrived unflagged senderIdle holds otherEvents _ otherNothingArrived otherHolds
      remembered =>
      rw [otherEvents] at waiting
      cases waiting
      have echo : (pair sender.other).echoGuard.isEchoOfRemote sha256 text = true := by
        simp [EchoGuard.isEchoOfRemote, remembered]
      rw [changeFrames, if_pos echo] at here
      refine .settled unflagged ?_ ?_ ?_ ?_
      · rw [there]
        exact senderIdle
      · rw [there]
        exact holds
      · rw [here]
        exact ⟨rfl, rfl, otherNothingArrived⟩
      · rw [here]
        exact otherHolds

/-- Only the sender has frames to send. -/
theorem round_sendFrame {machine : Machine} (round : Round sha256 before sender text pair)
    (stepped : step sha256 pair (.sendFrame machine) = some next) :
    Round sha256 before sender text next := by
  obtain ⟨msg, sending, left, here, there⟩ := step_sendFrame stepped
  rcases machine.eq_or_eq_other sender with rfl | rfl
  · cases round with
    | copied _ nothingSent =>
        rw [nothingSent] at left
        cases left
    | suppressed _ senderIdle | arrived _ senderIdle | settled _ senderIdle =>
        rw [senderIdle.2.1] at left
        cases left
    | transferring unflagged chunks noEvents nothingArrived holds otherNoEvents nothingSent
        frames remains =>
        refine .transferring unflagged chunks ?_ ?_ ?_ ?_ ?_ ?_ ?_
        · rw [here]
          exact noEvents
        · rw [here]
          exact nothingArrived
        · rw [here]
          exact holds
        · rw [there]
          exact otherNoEvents
        · rw [there]
          exact nothingSent
        · rw [left] at frames
          rw [here, there, List.append_assoc, List.singleton_append]
          exact frames
        · rw [there]
          exact remains
  · cases round with
    | copied _ _ _ _ _ otherIdle | suppressed _ _ _ otherIdle | settled _ _ _ otherIdle =>
        rw [otherIdle.2.1] at left
        cases left
    | transferring _ _ _ _ _ _ nothingSent | arrived _ _ _ _ nothingSent =>
        rw [nothingSent] at left
        cases left

/-- The last frame writes the text and makes the guard remember it. -/
theorem round_deliver {machine : Machine} (noNul : Char.ofNat 0 ∉ text.toList)
    (round : Round sha256 before sender text pair)
    (stepped : step sha256 pair (.deliver machine) = some next) :
    Round sha256 before sender text next := by
  obtain ⟨msg, inbox, inFlight, here, there⟩ := step_deliver stepped
  rcases machine.eq_or_eq_other sender with rfl | rfl
  · cases round with
    | copied _ _ nothingArrived | transferring _ _ _ nothingArrived =>
        rw [nothingArrived] at inFlight
        cases inFlight
    | suppressed _ senderIdle | arrived _ senderIdle | settled _ senderIdle =>
        rw [senderIdle.2.2] at inFlight
        cases inFlight
  · rw [Machine.other_other] at there
    cases round with
    | copied _ _ _ _ _ otherIdle | suppressed _ _ _ otherIdle | settled _ _ _ otherIdle =>
        rw [otherIdle.2.2] at inFlight
        cases inFlight
    | arrived _ _ _ _ _ otherNothingArrived =>
        rw [otherNothingArrived] at inFlight
        cases inFlight
    | transferring unflagged chunks noEvents nothingArrived holds otherNoEvents nothingSent
        frames remains =>
        obtain ⟨chunk, rest, rfl, fed⟩ := remains.feed
        rw [inFlight, List.cons_append, List.map_cons] at frames
        obtain ⟨rfl, framesLeft⟩ := List.cons_eq_cons.mp frames
        rcases fed with ⟨rfl, fed⟩ | ⟨buffer, fed, finishes⟩
        · obtain ⟨reassembler, wrote⟩ := @ClipboardSide.ingestFrame_of_done sha256
            sender.other { pair sender.other with inbox := inbox } chunk text fed
          rw [Machine.holds_of_noNul noNul] at wrote
          obtain ⟨rfl, nothingLeft⟩ := List.append_eq_nil_iff.mp framesLeft
          rw [wrote] at here
          refine .arrived unflagged ?_ ?_ ?_ ?_ ?_ ?_ ?_
          · rw [there]
            exact ⟨noEvents, nothingLeft, nothingArrived⟩
          · rw [there]
            exact holds
          · rw [here, otherNoEvents]
            rfl
          · rw [here]
            exact nothingSent
          · rw [here]
          · rw [here]
          · rw [here]
            rfl
        · obtain ⟨reassembler, grown, ingested⟩ := @ClipboardSide.ingestFrame_of_more sha256
            sender.other { pair sender.other with inbox := inbox } chunk buffer fed
          rw [ingested] at here
          refine .transferring unflagged rest ?_ ?_ ?_ ?_ ?_ ?_ ?_
          · rw [there]
            exact noEvents
          · rw [there]
            exact nothingArrived
          · rw [there]
            exact holds
          · rw [here]
            exact otherNoEvents
          · rw [here]
            exact nothingSent
          · rw [here, there]
            exact framesLeft
          · rw [here]
            exact .inr ⟨buffer, grown, finishes⟩

theorem round_step {label : SyncLabel} (noNul : Char.ofNat 0 ∉ text.toList)
    (round : Round sha256 before sender text pair)
    (noCopy : label.isCopy = false) (stepped : step sha256 pair label = some next) :
    Round sha256 before sender text next := by
  cases label with
  | copy => cases noCopy
  | takeEvent machine =>
      rcases machine.eq_or_eq_other sender with rfl | rfl
      · exact round_takeEvent_sender round stepped
      · exact round_takeEvent_other round stepped
  | sendFrame => exact round_sendFrame round stepped
  | deliver => exact round_deliver noNul round stepped

theorem round_exec {labels : List SyncLabel} {final : ClipboardPair}
    (noNul : Char.ofNat 0 ∉ text.toList) (round : Round sha256 before sender text pair)
    (noCopies : ∀ label ∈ labels, label.isCopy = false)
    (run : exec (step sha256) pair labels = some final) :
    Round sha256 before sender text final := by
  have preserved : ∀ state label next, Round sha256 before sender text state →
      label.isCopy = false → step sha256 state label = some next →
      Round sha256 before sender text next :=
    fun _ _ _ reached noCopy stepped => round_step noNul reached noCopy stepped
  have throughout := throughout_of_along preserved round (along_of_forall noCopies)
  exact final_of_throughout throughout run

/-- A round that has come to rest was suppressed or has settled. -/
theorem Round.bothHold_iff (round : Round sha256 before sender text pair)
    (quiet : Quiescent pair) :
    BothHold pair text ↔
      ¬ Flags sha256 before sender text ∨ (before sender.other).clipboard = some text := by
  have sides : BothHold pair text ↔
      (pair sender).clipboard = some text ∧ (pair sender.other).clipboard = some text := by
    cases sender with
    | mac => exact Iff.rfl
    | windows => exact And.comm
  rw [sides]
  cases round with
  | copied changes =>
      rw [(quiet.idle sender).1] at changes
      cases changes
  | suppressed flagged _ holds _ sameClipboard => simp [flagged, holds, sameClipboard]
  | transferring _ chunks _ _ _ _ _ frames remains =>
      obtain ⟨chunk, rest, rfl, _⟩ := remains.feed
      rw [(quiet.idle sender).2.1, (quiet.idle sender.other).2.2] at frames
      cases frames
  | arrived _ _ _ otherEvents =>
      rw [(quiet.idle sender.other).1] at otherEvents
      cases otherEvents
  | settled unflagged _ holds _ otherHolds => simp [unflagged, holds, otherHolds]

/-- Behind any history of copies, the text copied last is on both clipboards
once everything is quiet exactly when it has no NUL in it and the guard of the copying
machine did not flag it, or the other machine had it already. -/
theorem bothHold_iff_not_flagged (sha256 : List UInt8 → Bytes32)
    (contents : Machine → Option String) (history later : List SyncLabel)
    (machine : Machine) (text : String) (final : ClipboardPair)
    (noCopies : ∀ label ∈ later, label.isCopy = false)
    (run : exec (step sha256) (start contents) (history ++ .copy machine text :: later) =
      some final)
    (quiet : Quiescent final) :
    ∃ before, exec (step sha256) (start contents) history = some before ∧
      (BothHold final text ↔
        Char.ofNat 0 ∉ text.toList ∧
          (¬ Flags sha256 before machine text ∨
            (before machine.other).clipboard = some text)) := by
  have shows := showsNoNul_exec run
  rw [exec_append] at run
  obtain ⟨before, early, rest⟩ := Option.bind_eq_some_iff.mp run
  obtain ⟨next, copied, behind⟩ := exec_cons_eq_some.mp rest
  refine ⟨before, early, ?_⟩
  by_cases noNul : Char.ofNat 0 ∉ text.toList
  · have round := round_exec noNul (round_copy noNul copied) noCopies behind
    rw [round.bothHold_iff quiet, and_iff_right noNul]
  · exact iff_of_false (fun both => noNul (shows text both.2)) fun condition => noNul condition.1

/-- The steps that bring a short text to the other machine. -/
def carry (machine : Machine) (text : String) : List SyncLabel :=
  [.copy machine text, .takeEvent machine, .sendFrame machine, .deliver machine.other,
    .takeEvent machine.other]

/-- A first copy, forwarded and not sent back. -/
theorem bothHold_iff_not_flagged_carry :
    ∃ final, exec (step toBytes32) (start fun _ => none) (carry .mac "a") = some final ∧
      ∃ before, exec (step toBytes32) (start fun _ => none) [] = some before ∧
        (BothHold final "a" ↔
          Char.ofNat 0 ∉ "a".toList ∧
            (¬ Flags toBytes32 before .mac "a" ∨
              (before .windows).clipboard = some "a")) := by
  have settles : ((exec (step toBytes32) (start fun _ => none) (carry .mac "a")).any
      fun pair => decide (Quiescent pair)) = true := by decide
  obtain ⟨final, run, quiet⟩ := (Option.any_eq_true _ _).mp settles
  exact ⟨final, run, bothHold_iff_not_flagged toBytes32 (fun _ => none) [] _ .mac "a" final
    (by decide) run (of_decide_eq_true quiet)⟩

/-- `a` comes from the Mac, `b` goes back, and a local copy of `a` is then
taken for the echo of the first. -/
theorem not_bothHold_after_stale_hash :
    ¬ ∀ (history later : List SyncLabel) (machine : Machine) (text : String)
      (final : ClipboardPair), (∀ label ∈ later, label.isCopy = false) →
      exec (step toBytes32) (start fun _ => none)
        (history ++ .copy machine text :: later) = some final →
      Quiescent final → BothHold final text := by
  intro converges
  have stale : ((exec (step toBytes32) (start fun _ => none)
      (carry .mac "a" ++ carry .windows "b" ++
        [.copy .windows "a", .takeEvent .windows])).any
      fun pair => decide (Quiescent pair ∧ (pair .mac).clipboard = some "b")) = true := by
    decide
  obtain ⟨final, run, reached⟩ := (Option.any_eq_true _ _).mp stale
  obtain ⟨quiet, mac⟩ := of_decide_eq_true reached
  have both := converges (carry .mac "a" ++ carry .windows "b") [.takeEvent .windows]
    .windows "a" final (by decide) run quiet
  have same : some "b" = some "a" := mac.symm.trans both.1
  exact absurd same (by decide)

end ClipboardPair

end Kmwarp
