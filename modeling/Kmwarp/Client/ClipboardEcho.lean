import Kmwarp.Core.Clipboard
import Kmwarp.Foundation.Runs
import Kmwarp.Foundation.Utf16
import Mathlib.Data.List.TakeWhile

/-!
# Client clipboard echoes

The injector writes an inbound payload to the Windows clipboard and remembers
its hash behind the write.  The listener thread and the outbound task can get at
the change in between.
-/

namespace Kmwarp.Client

open Foundation Wire

/-- The memory block that `write_clipboard_text_locked` leaves. -/
def writeClipboardTextLocked (text : String) : List UInt16 :=
  encodeUtf16 text.toList ++ [0]

def readClipboardTextLocked (block : List UInt16) : String :=
  String.ofList (decodeUtf16Lossy (block.takeWhile (· ≠ 0)))

/-- A text reads back as itself up to its first NUL, whatever the block holds behind it. -/
theorem readClipboardTextLocked_write (text : String) (slack : List UInt16) :
    readClipboardTextLocked (writeClipboardTextLocked text ++ slack) =
      String.ofList (text.toList.takeWhile (· ≠ Char.ofNat 0)) := by
  rw [readClipboardTextLocked, writeClipboardTextLocked, List.append_assoc,
    List.singleton_append, takeWhile_encodeUtf16, decodeUtf16Lossy_encodeUtf16]

theorem readClipboardTextLocked_of_noNul {text : String} (noNul : Char.ofNat 0 ∉ text.toList)
    (slack : List UInt16) :
    readClipboardTextLocked (writeClipboardTextLocked text ++ slack) = text := by
  rw [readClipboardTextLocked_write, List.takeWhile_eq_self_iff.mpr, String.ofList_toList]
  intro c member
  exact decide_eq_true fun nul => noNul (nul ▸ member)

/-- A text that the reassembler completes. -/
def Delivered (text : String) : Prop :=
  ∃ (reassembler : Reassembler) (msgs : List Message),
    text ∈ Reassembler.texts (reassembler.ingestAll msgs).1

/-- Every text is delivered from its own frames. -/
theorem delivered (text : String) : Delivered text := by
  refine ⟨{}, Chunker.split text, ?_⟩
  have ingested := (Reassembler.ingestAll_eq_feedAll (Chunker.split text) {}).1
  let attempt : Attempt UInt8 :=
    { payload := asBytes text
      chunks := marked (partsOf text)
      sent := marked (partsOf text)
      transmits := transmits_split text
      isPrefix := List.prefix_refl _ }
  have completes := (feedAll_attempt attempt (Reassembler.assembly {})).2
  rw [Attempt.isComplete, decide_eq_true rfl, if_pos rfl] at completes
  rw [ingested, split_eq_marked, filterMap_chunkOf_frames, completes]
  simp [attempt, Reassembler.decode_asBytes]

/-- The block of a written text may be larger than what was asked for. -/
def ReadsBack (sha256 : List UInt8 → Bytes32) (text : String) : Prop :=
  ∀ (slack : List UInt16) (echoGuard : EchoGuard),
    let readBack := readClipboardTextLocked (writeClipboardTextLocked text ++ slack)
    readBack = text ∧
      (echoGuard.rememberRemoteWrite sha256 text).isEchoOfRemote sha256 readBack = true

/-- A delivered text reads back, and is known for an echo, if and only if it has no
NUL in it. -/
theorem readsBack_iff_noNul (sha256 : List UInt8 → Bytes32) (text : String) :
    (Delivered text → ReadsBack sha256 text) ↔ Char.ofNat 0 ∉ text.toList := by
  constructor
  · intro readsBack nul
    have same := (readsBack (delivered text) [] {}).1
    rw [readClipboardTextLocked_write] at same
    have visible : text.toList.takeWhile (· ≠ Char.ofNat 0) = text.toList := by
      rw [← String.toList_ofList (l := text.toList.takeWhile (· ≠ Char.ofNat 0)), same]
    rw [List.takeWhile_eq_self_iff] at visible
    simpa using visible _ nul
  · intro noNul _ slack echoGuard
    have same := readClipboardTextLocked_of_noNul noNul slack
    refine ⟨same, ?_⟩
    rw [same, EchoGuard.isEchoOfRemote, EchoGuard.rememberRemoteWrite]
    exact decide_eq_true rfl

/-- A text with a NUL in it reads back cut off. -/
theorem not_readsBack_copied :
    ¬ ∀ text, Delivered text → ReadsBack toBytes32 text := by
  intro readsBack
  have same := (readsBack "cop\x00ied" (delivered _) [] {}).1
  revert same
  decide

/-- What becomes of a write: the clipboard is not opened or not emptied, it is
emptied and then not set, or it is written. -/
inductive WriteOutcome where
  | notEmptied
  | notSet
  | written
deriving DecidableEq

/-- How far `handle_clipboard_text` is with its payload. -/
inductive Inbound where
  | completed (text : String)
  | written (text : String)
  | remembered (text : String)
  | failed
deriving DecidableEq

/-- `updates` counts the `WM_CLIPBOARDUPDATE` messages that the listener has not
handled, and `checking` is a change that the outbound task has popped. -/
structure ClientClipboard where
  block : Option (List UInt16)
  updates : Nat
  inbound : Inbound
  echoGuard : EchoGuard
  changes : List String
  checking : Option String
  forwarded : List String
deriving DecidableEq

/-- `readable` says whether the listener gets the clipboard open. -/
inductive ClientClipboardLabel where
  | write (outcome : WriteOutcome)
  | remember
  | update (readable : Bool)
  | pop
  | check
deriving DecidableEq

namespace ClientClipboard

/-- A payload arrives while no change is pending. -/
def start (block : Option (List UInt16)) (echoGuard : EchoGuard) (text : String) :
    ClientClipboard where
  block := block
  updates := 0
  inbound := .completed text
  echoGuard := echoGuard
  changes := []
  checking := none
  forwarded := []

variable (sha256 : List UInt8 → Bytes32)

def step (clipboard : ClientClipboard) : ClientClipboardLabel → Option ClientClipboard
  | .write outcome =>
      match clipboard.inbound, outcome with
      | .completed _, .notEmptied => some { clipboard with inbound := .failed }
      | .completed _, .notSet =>
          some { clipboard with
            block := none
            updates := clipboard.updates + 1
            inbound := .failed }
      | .completed text, .written =>
          some { clipboard with
            block := some (writeClipboardTextLocked text)
            updates := clipboard.updates + 1
            inbound := .written text }
      | _, _ => none
  | .remember =>
      match clipboard.inbound with
      | .written text =>
          some { clipboard with
            inbound := .remembered text
            echoGuard := clipboard.echoGuard.rememberRemoteWrite sha256 text }
      | _ => none
  | .update readable =>
      match clipboard.updates with
      | 0 => none
      | updates + 1 =>
          let text := if readable then clipboard.block.map readClipboardTextLocked else none
          some { clipboard with
            updates := updates
            changes := clipboard.changes ++ text.toList }
  | .pop =>
      match clipboard.checking, clipboard.changes with
      | none, text :: changes =>
          some { clipboard with
            changes := changes
            checking := some text }
      | _, _ => none
  | .check =>
      match clipboard.checking with
      | none => none
      | some text =>
          if clipboard.echoGuard.isEchoOfRemote sha256 text then
            some { clipboard with checking := none }
          else
            some { clipboard with
              checking := none
              forwarded := clipboard.forwarded ++ [text] }

/-- Nothing is forwarded, since every change comes from the write. -/
def NoEcho (clipboard : ClientClipboard) : Prop :=
  clipboard.forwarded = []

/-- A change is checked only when the payload has been remembered and reads back
with its hash, or when the guard holds that hash from an earlier payload. -/
def RemembersFirst (clipboard : ClientClipboard) : ClientClipboardLabel → Prop
  | .check =>
      match clipboard.inbound with
      | .remembered text =>
          sha256 (asBytes (readClipboardTextLocked (writeClipboardTextLocked text))) =
            sha256 (asBytes text)
      | .written text =>
          clipboard.echoGuard.isEchoOfRemote sha256
            (readClipboardTextLocked (writeClipboardTextLocked text)) = true
      | _ => True
  | _ => True

/-! ## What is pending -/

/-- What the inbound path has done so far: before the write nothing is pending,
and behind it every change is the payload as it reads back. -/
def Sound (clipboard : ClientClipboard) : Prop :=
  match clipboard.inbound with
  | .completed _ =>
      clipboard.updates = 0 ∧ clipboard.changes = [] ∧ clipboard.checking = none
  | .written text | .remembered text =>
      clipboard.block = some (writeClipboardTextLocked text) ∧
        (∀ change ∈ clipboard.changes ++ clipboard.checking.toList,
          change = readClipboardTextLocked (writeClipboardTextLocked text)) ∧
        (clipboard.inbound = .remembered text →
          clipboard.echoGuard.lastRemoteHash = some (sha256 (asBytes text)))
  | .failed =>
      (clipboard.block = none ∨ clipboard.updates = 0) ∧ clipboard.changes = [] ∧
        clipboard.checking = none

variable {sha256} {clipboard next : ClientClipboard}

theorem sound_write {outcome : WriteOutcome} (sound : Sound sha256 clipboard)
    (stepped : clipboard.step sha256 (.write outcome) = some next) : Sound sha256 next := by
  cases inbound : clipboard.inbound with
  | completed text =>
      simp only [Sound, inbound] at sound
      obtain ⟨noUpdates, noChanges, notChecking⟩ := sound
      cases outcome with
      | notEmptied =>
          simp only [step, inbound, Option.some.injEq] at stepped
          subst stepped
          exact ⟨.inr noUpdates, noChanges, notChecking⟩
      | notSet =>
          simp only [step, inbound, Option.some.injEq] at stepped
          subst stepped
          exact ⟨.inl rfl, noChanges, notChecking⟩
      | written =>
          simp only [step, inbound, Option.some.injEq] at stepped
          subst stepped
          refine ⟨rfl, ?_, nofun⟩
          simp [noChanges, notChecking]
  | written | remembered | failed => simp [step, inbound] at stepped

theorem sound_remember (sound : Sound sha256 clipboard)
    (stepped : clipboard.step sha256 .remember = some next) : Sound sha256 next := by
  cases inbound : clipboard.inbound with
  | written text =>
      simp only [Sound, inbound] at sound
      simp only [step, inbound, Option.some.injEq] at stepped
      subst stepped
      exact ⟨sound.1, sound.2.1, fun _ => rfl⟩
  | completed | remembered | failed => simp [step, inbound] at stepped

theorem sound_update {readable : Bool} (sound : Sound sha256 clipboard)
    (stepped : clipboard.step sha256 (.update readable) = some next) : Sound sha256 next := by
  cases updates : clipboard.updates with
  | zero => simp [step, updates] at stepped
  | succ count =>
      simp only [step, updates, Option.some.injEq] at stepped
      subst stepped
      unfold Sound at sound ⊢
      cases inbound : clipboard.inbound with
      | completed text =>
          simp only [inbound, updates] at sound
          exact absurd sound.1 (Nat.succ_ne_zero count)
      | written text | remembered text =>
          simp only [inbound] at sound ⊢
          obtain ⟨block, onlyReadBack, remembers⟩ := sound
          refine ⟨block, ?_, remembers⟩
          cases readable <;> simpa [block, or_imp, forall_and] using onlyReadBack
      | failed =>
          simp only [inbound, updates] at sound ⊢
          obtain ⟨noBlock | noUpdates, noChanges, notChecking⟩ := sound
          · refine ⟨.inl noBlock, ?_, notChecking⟩
            cases readable <;> simp [noBlock, noChanges]
          · exact absurd noUpdates (Nat.succ_ne_zero count)

/-- The pending changes and the one being checked only move on. -/
theorem sound_of_pending (sound : Sound sha256 clipboard)
    (sameBlock : next.block = clipboard.block) (sameUpdates : next.updates = clipboard.updates)
    (sameInbound : next.inbound = clipboard.inbound)
    (sameGuard : next.echoGuard = clipboard.echoGuard)
    (fewer : ∀ change ∈ next.changes ++ next.checking.toList,
      change ∈ clipboard.changes ++ clipboard.checking.toList) : Sound sha256 next := by
  have none (noChanges : clipboard.changes = []) (notChecking : clipboard.checking = none) :
      next.changes = [] ∧ next.checking = none := by
    simp only [noChanges, notChecking, Option.toList_none, List.append_nil,
      List.not_mem_nil] at fewer
    have empty := List.eq_nil_iff_forall_not_mem.mpr fewer
    rwa [List.append_eq_nil_iff, Option.toList_eq_nil_iff] at empty
  unfold Sound at sound ⊢
  rw [sameBlock, sameUpdates, sameInbound, sameGuard]
  cases inbound : clipboard.inbound with
  | completed text =>
      simp only [inbound] at sound ⊢
      exact ⟨sound.1, none sound.2.1 sound.2.2⟩
  | written text | remembered text =>
      simp only [inbound] at sound ⊢
      exact ⟨sound.1, fun change member => sound.2.1 change (fewer change member), sound.2.2⟩
  | failed =>
      simp only [inbound] at sound ⊢
      exact ⟨sound.1, none sound.2.1 sound.2.2⟩

theorem sound_pop (sound : Sound sha256 clipboard)
    (stepped : clipboard.step sha256 .pop = some next) : Sound sha256 next := by
  cases checking : clipboard.checking with
  | some text => simp [step, checking] at stepped
  | none =>
      cases changes : clipboard.changes with
      | nil => simp [step, checking, changes] at stepped
      | cons text later =>
          simp only [step, checking, changes, Option.some.injEq] at stepped
          subst stepped
          refine sound_of_pending sound rfl rfl rfl rfl fun change member => ?_
          rw [changes, checking]
          simpa [or_comm, eq_comm] using member

/-- A checked change is dropped as an echo or forwarded. -/
theorem step_check (stepped : clipboard.step sha256 .check = some next) :
    ∃ text, clipboard.checking = some text ∧
      next = { clipboard with
        checking := none
        forwarded := clipboard.forwarded ++
          if clipboard.echoGuard.isEchoOfRemote sha256 text then [] else [text] } := by
  cases checking : clipboard.checking with
  | none => simp [step, checking] at stepped
  | some text =>
      refine ⟨text, rfl, ?_⟩
      simp only [step, checking] at stepped
      split at stepped
      · rename_i echo
        cases stepped
        rw [if_pos echo, List.append_nil]
      · rename_i fresh
        cases stepped
        rw [if_neg fresh]

theorem sound_step {label : ClientClipboardLabel} (sound : Sound sha256 clipboard)
    (stepped : clipboard.step sha256 label = some next) : Sound sha256 next := by
  cases label with
  | write outcome => exact sound_write sound stepped
  | remember => exact sound_remember sound stepped
  | update readable => exact sound_update sound stepped
  | pop => exact sound_pop sound stepped
  | check =>
      obtain ⟨text, checking, rfl⟩ := step_check stepped
      refine sound_of_pending sound rfl rfl rfl rfl fun change member => ?_
      exact List.mem_append_left _ (by simpa using member)

/-- The other steps forward nothing. -/
theorem forwarded_step {label : ClientClipboardLabel} (other : label ≠ .check)
    (stepped : clipboard.step sha256 label = some next) :
    next.forwarded = clipboard.forwarded := by
  cases label with
  | check => exact absurd rfl other
  | write | remember | update | pop =>
      simp only [step] at stepped
      split at stepped <;> cases stepped <;> rfl

theorem noEcho_step_iff {label : ClientClipboardLabel} (sound : Sound sha256 clipboard)
    (noEcho : clipboard.NoEcho) (stepped : clipboard.step sha256 label = some next) :
    next.NoEcho ↔ clipboard.RemembersFirst sha256 label := by
  by_cases isCheck : label = .check
  · subst isCheck
    obtain ⟨text, checking, rfl⟩ := step_check stepped
    rw [NoEcho] at noEcho
    have dropped : (if clipboard.echoGuard.isEchoOfRemote sha256 text then [] else [text]) =
        ([] : List String) ↔ clipboard.echoGuard.isEchoOfRemote sha256 text = true := by
      split <;> simp_all
    rw [NoEcho, noEcho, List.nil_append, dropped]
    unfold Sound at sound
    unfold RemembersFirst
    cases inbound : clipboard.inbound with
    | completed payload | failed =>
        simp only [inbound, checking] at sound
        cases sound.2.2
    | written payload =>
        simp only [inbound, checking] at sound ⊢
        rw [sound.2.1 text (by simp)]
    | remembered payload =>
        simp only [inbound, checking] at sound ⊢
        rw [sound.2.1 text (by simp), EchoGuard.isEchoOfRemote, sound.2.2 trivial,
          decide_eq_true_eq, eq_comm]
  · rw [NoEcho, forwarded_step isCheck stepped]
    refine iff_of_true noEcho ?_
    cases label with
    | check => exact absurd rfl isCheck
    | write | remember | update | pop => trivial

end ClientClipboard

/-- In every interleaving, the write of an inbound payload is not echoed if and only
if its change is checked with the payload remembered. -/
theorem noEcho_iff_remembersFirst (sha256 : List UInt8 → Bytes32)
    (block : Option (List UInt16)) (echoGuard : EchoGuard) (text : String)
    (labels : List ClientClipboardLabel) :
    Throughout (ClientClipboard.step sha256) ClientClipboard.NoEcho
        (.start block echoGuard text) labels ↔
      Along (ClientClipboard.step sha256) (ClientClipboard.RemembersFirst sha256)
        (.start block echoGuard text) labels :=
  throughout_iff_along (fun _ _ _ => ClientClipboard.sound_step)
    (fun _ _ _ => ClientClipboard.noEcho_step_iff) ⟨rfl, rfl, rfl⟩ rfl

/-- The listener and the outbound task come between the write and the hash, or the
text reads back only up to a NUL. -/
theorem not_noEcho_copied :
    (¬ ∀ labels, Throughout (ClientClipboard.step toBytes32) ClientClipboard.NoEcho
      (.start none {} "copied") labels) ∧
      ¬ ∀ labels, Throughout (ClientClipboard.step toBytes32) ClientClipboard.NoEcho
        (.start none {} "cop\x00ied") labels := by
  have unremembered : (exec (ClientClipboard.step toBytes32) (.start none {} "copied")
      [.write .written, .update true, .pop, .check]).map ClientClipboard.forwarded =
        some ["copied"] := by
    decide
  have truncated : (exec (ClientClipboard.step toBytes32) (.start none {} "cop\x00ied")
      [.write .written, .remember, .update true, .pop, .check]).map
        ClientClipboard.forwarded = some ["cop"] := by
    decide
  obtain ⟨first, reachedFirst, firstForwarded⟩ := Option.map_eq_some_iff.mp unremembered
  obtain ⟨second, reachedSecond, secondForwarded⟩ := Option.map_eq_some_iff.mp truncated
  constructor
  · intro always
    have noEcho : first.NoEcho := final_of_throughout (always _) reachedFirst
    rw [ClientClipboard.NoEcho, firstForwarded] at noEcho
    cases noEcho
  · intro always
    have noEcho : second.NoEcho := final_of_throughout (always _) reachedSecond
    rw [ClientClipboard.NoEcho, secondForwarded] at noEcho
    cases noEcho

end Kmwarp.Client
