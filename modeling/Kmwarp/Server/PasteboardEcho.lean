import Kmwarp.Core.Clipboard
import Kmwarp.Foundation.Mailbox
import Kmwarp.Foundation.Runs

/-!
# Server clipboard echoes

The inbound task remembers the hash of a payload before it writes the
pasteboard.  The guard keeps one hash, so a change that is checked late is
compared with a later payload.
-/

namespace Kmwarp.Server

open Foundation Wire

def clipboardEventBound : Nat := 64

/-- A text on the pasteboard; `writer` is the number of the inbound payload it was
written for, and `none` for a copy of the user. -/
structure PasteboardText where
  text : String
  writer : Option Nat
deriving DecidableEq

structure Pasteboard where
  changeCount : Nat
  string : Option PasteboardText
deriving DecidableEq

/-- How far `clipboard_in_task` is with a payload: it has remembered its hash, or
has also cleared the pasteboard. -/
inductive Writing where
  | remembered (text : String)
  | cleared (text : String) (generation : Nat)
deriving DecidableEq

def Writing.text : Writing → String
  | .remembered text | .cleared text _ => text

/-- `payloads` are the texts remembered so far, `counted` is the change count the
watcher has just read, `sending` the event it is blocked on and `checking` the one
the outbound task has popped. -/
structure ServerClipboard where
  pasteboard : Pasteboard
  echoGuard : EchoGuard
  payloads : List String
  writing : Option Writing
  lastCc : Nat
  counted : Option Nat
  sending : Option PasteboardText
  changes : Mailbox clipboardEventBound PasteboardText
  checking : Option PasteboardText
  forwarded : List PasteboardText

inductive ServerClipboardLabel where
  | userCopy (text : Option String)
  | remember (text : String)
  | clear
  | setString
  | watchCount
  | watchText
  | send
  | pop
  | check
deriving DecidableEq

namespace ServerClipboard

/-- The watcher seeds its count with what is on the pasteboard. -/
def start (changeCount : Nat) (copied : Option String) : ServerClipboard where
  pasteboard := ⟨changeCount, copied.map fun text => ⟨text, none⟩⟩
  echoGuard := {}
  payloads := []
  writing := none
  lastCc := changeCount
  counted := none
  sending := none
  changes := .empty
  checking := none
  forwarded := []

variable (sha256 : List UInt8 → Bytes32)

/-- A string is set only as long as nobody else has cleared the pasteboard. -/
def step (clipboard : ServerClipboard) : ServerClipboardLabel → Option ServerClipboard
  | .userCopy text =>
      some { clipboard with
        pasteboard := ⟨clipboard.pasteboard.changeCount + 1,
          text.map fun text => ⟨text, none⟩⟩ }
  | .remember text =>
      match clipboard.writing with
      | some _ => none
      | none =>
          some { clipboard with
            echoGuard := clipboard.echoGuard.rememberRemoteWrite sha256 text
            payloads := clipboard.payloads ++ [text]
            writing := some (.remembered text) }
  | .clear =>
      match clipboard.writing with
      | some (.remembered text) =>
          let generation := clipboard.pasteboard.changeCount + 1
          some { clipboard with
            pasteboard := ⟨generation, none⟩
            writing := some (.cleared text generation) }
      | _ => none
  | .setString =>
      match clipboard.writing with
      | some (.cleared text generation) =>
          let pasteboard :=
            if clipboard.pasteboard.changeCount = generation then
              ⟨generation, some ⟨text, some (clipboard.payloads.length - 1)⟩⟩
            else clipboard.pasteboard
          some { clipboard with
            pasteboard := pasteboard
            writing := none }
      | _ => none
  | .watchCount =>
      match clipboard.counted, clipboard.sending with
      | none, none =>
          some { clipboard with counted := some clipboard.pasteboard.changeCount }
      | _, _ => none
  | .watchText =>
      match clipboard.counted with
      | none => none
      | some cc =>
          if cc = clipboard.lastCc then some { clipboard with counted := none }
          else
            some { clipboard with
              counted := none
              lastCc := cc
              sending := clipboard.pasteboard.string }
  | .send =>
      match clipboard.sending with
      | none => none
      | some event =>
          (clipboard.changes.trySend event).map fun changes =>
            { clipboard with
              changes := changes
              sending := none }
  | .pop =>
      match clipboard.checking, clipboard.changes.recv with
      | none, some (event, changes) =>
          some { clipboard with
            changes := changes
            checking := some event }
      | _, _ => none
  | .check =>
      match clipboard.checking with
      | none => none
      | some event =>
          if clipboard.echoGuard.isEchoOfRemote sha256 event.text then
            some { clipboard with checking := none }
          else
            some { clipboard with
              checking := none
              forwarded := clipboard.forwarded ++ [event] }

/-- Nothing is forwarded that was written for the peer. -/
def NoEcho (clipboard : ServerClipboard) : Prop :=
  ∀ event ∈ clipboard.forwarded, event.writer = none

/-- When a change written for a payload is checked, the payload remembered last is
this one, or one with the same hash. -/
def StillRemembered (clipboard : ServerClipboard) : ServerClipboardLabel → Prop
  | .check =>
      ∀ event ∈ clipboard.checking, ∀ payload ∈ event.writer,
        ∀ last ∈ (clipboard.payloads.drop (payload + 1)).getLast?,
          sha256 (asBytes last) = sha256 (asBytes event.text)
  | _ => True

/-! ## Genuine texts -/

/-- A text written for a payload is that payload. -/
def Genuine (payloads : List String) (event : PasteboardText) : Prop :=
  ∀ payload ∈ event.writer, payloads[payload]? = some event.text

/-- All texts between the pasteboard and the check are genuine, the guard holds the
hash of the payload remembered last, and this is the one being written. -/
structure Sound (clipboard : ServerClipboard) : Prop where
  string : ∀ text ∈ clipboard.pasteboard.string, Genuine clipboard.payloads text
  sending : ∀ event ∈ clipboard.sending, Genuine clipboard.payloads event
  changes : ∀ event ∈ clipboard.changes.items, Genuine clipboard.payloads event
  checking : ∀ event ∈ clipboard.checking, Genuine clipboard.payloads event
  writing : ∀ writing ∈ clipboard.writing, clipboard.payloads.getLast? = some writing.text
  guard : clipboard.echoGuard.lastRemoteHash =
    clipboard.payloads.getLast?.map fun text => sha256 (asBytes text)

theorem genuine_user (payloads : List String) (text : String) :
    Genuine payloads ⟨text, none⟩ := by
  simp [Genuine]

theorem Genuine.concat {payloads : List String} {event : PasteboardText}
    (genuine : Genuine payloads event) (text : String) :
    Genuine (payloads ++ [text]) event := by
  intro payload isWriter
  have found := genuine payload isWriter
  rw [List.getElem?_append_left (List.getElem?_eq_some_iff.mp found).1, found]

theorem genuine_map_user (payloads : List String) (copied : Option String) :
    ∀ text ∈ copied.map (fun text => (⟨text, none⟩ : PasteboardText)),
      Genuine payloads text := by
  intro text member
  obtain ⟨copy, _, rfl⟩ := Option.map_eq_some_iff.mp member
  exact genuine_user payloads copy

theorem sound_start (changeCount : Nat) (copied : Option String) :
    Sound sha256 (start changeCount copied) where
  string := genuine_map_user [] copied
  sending := nofun
  changes := nofun
  checking := nofun
  writing := nofun
  guard := rfl

variable {sha256} {clipboard next : ServerClipboard}

theorem sound_remember {text : String} (sound : Sound sha256 clipboard)
    (stepped : clipboard.step sha256 (.remember text) = some next) : Sound sha256 next := by
  cases writing : clipboard.writing with
  | some _ => simp [step, writing] at stepped
  | none =>
      simp only [step, writing, Option.some.injEq] at stepped
      subst stepped
      exact {
        string := fun text member => (sound.string text member).concat _
        sending := fun event member => (sound.sending event member).concat _
        changes := fun event member => (sound.changes event member).concat _
        checking := fun event member => (sound.checking event member).concat _
        writing := by
          rintro _ ⟨⟩
          exact List.getLast?_concat
        guard := by
          rw [List.getLast?_concat]
          rfl }

theorem sound_setString (sound : Sound sha256 clipboard)
    (stepped : clipboard.step sha256 .setString = some next) : Sound sha256 next := by
  cases writing : clipboard.writing with
  | none => simp [step, writing] at stepped
  | some progress =>
      cases progress with
      | remembered text => simp [step, writing] at stepped
      | cleared text generation =>
          simp only [step, writing, Option.some.injEq] at stepped
          subst stepped
          have last : clipboard.payloads.getLast? = some text :=
            sound.writing (.cleared text generation) writing
          refine { sound with string := ?_, writing := nofun }
          intro written member
          split at member
          · cases member
            rintro payload ⟨⟩
            rw [← List.getLast?_eq_getElem?, last]
          · exact sound.string written member

theorem sound_step {label : ServerClipboardLabel} (sound : Sound sha256 clipboard)
    (stepped : clipboard.step sha256 label = some next) : Sound sha256 next := by
  cases label with
  | remember text => exact sound_remember sound stepped
  | setString => exact sound_setString sound stepped
  | userCopy text =>
      cases stepped
      exact { sound with string := genuine_map_user _ text }
  | clear =>
      cases writing : clipboard.writing with
      | none => simp [step, writing] at stepped
      | some progress =>
          cases progress with
          | cleared text generation => simp [step, writing] at stepped
          | remembered text =>
              simp only [step, writing, Option.some.injEq] at stepped
              subst stepped
              refine { sound with string := nofun, writing := ?_ }
              rintro _ ⟨⟩
              exact sound.writing (.remembered text) writing
  | watchCount =>
      simp only [step] at stepped
      split at stepped
      · cases stepped
        exact { sound with }
      · cases stepped
  | watchText =>
      simp only [step] at stepped
      split at stepped
      · cases stepped
      · split at stepped <;> cases stepped
        · exact { sound with }
        · exact { sound with sending := sound.string }
  | send =>
      cases sending : clipboard.sending with
      | none => simp [step, sending] at stepped
      | some event =>
          simp only [step, sending, Option.map_eq_some_iff] at stepped
          obtain ⟨changes, accepted, rfl⟩ := stepped
          refine { sound with sending := nofun, changes := ?_ }
          intro queued member
          rw [Mailbox.items_trySend accepted, List.mem_append, List.mem_singleton] at member
          rcases member with earlier | rfl
          · exact sound.changes queued earlier
          · exact sound.sending queued sending
  | pop =>
      simp only [step] at stepped
      split at stepped
      · rename_i event changes notChecking received
        cases stepped
        have front := Mailbox.items_recv received
        refine { sound with changes := ?_, checking := ?_ }
        · intro queued member
          exact sound.changes queued (front ▸ List.mem_cons_of_mem _ member)
        · rintro _ ⟨⟩
          exact sound.changes event (front ▸ List.mem_cons_self)
      · cases stepped
  | check =>
      simp only [step] at stepped
      split at stepped
      · cases stepped
      · split at stepped <;> cases stepped <;> exact { sound with checking := nofun }

/-- A genuine change is taken for an echo exactly if the payload remembered last,
should it be a later one, has its hash. -/
theorem isEcho_iff {event : PasteboardText} {payload : Nat} (sound : Sound sha256 clipboard)
    (genuine : Genuine clipboard.payloads event) (isWriter : payload ∈ event.writer) :
    clipboard.echoGuard.isEchoOfRemote sha256 event.text = true ↔
      ∀ last ∈ (clipboard.payloads.drop (payload + 1)).getLast?,
        sha256 (asBytes last) = sha256 (asBytes event.text) := by
  have found := genuine payload isWriter
  have bound : payload < clipboard.payloads.length :=
    (List.getElem?_eq_some_iff.mp found).1
  rw [EchoGuard.isEchoOfRemote, sound.guard, List.getLast?_drop]
  by_cases latest : clipboard.payloads.length ≤ payload + 1
  · have isLast : clipboard.payloads.getLast? = some event.text := by
      rw [List.getLast?_eq_getElem?, ← found]
      congr 1
      omega
    simp [isLast, latest]
  · cases last : clipboard.payloads.getLast? with
    | none =>
        rw [List.getLast?_eq_none_iff] at last
        simp [last] at bound
    | some text => simp [latest]

/-- A checked change is dropped as an echo or forwarded. -/
theorem step_check (stepped : clipboard.step sha256 .check = some next) :
    ∃ event, clipboard.checking = some event ∧
      next.forwarded = clipboard.forwarded ++
        if clipboard.echoGuard.isEchoOfRemote sha256 event.text then [] else [event] := by
  cases checking : clipboard.checking with
  | none => simp [step, checking] at stepped
  | some event =>
      refine ⟨event, rfl, ?_⟩
      simp only [step, checking] at stepped
      split at stepped
      · rename_i echo
        cases stepped
        rw [if_pos echo, List.append_nil]
      · rename_i fresh
        cases stepped
        rw [if_neg fresh]

/-- The other steps forward nothing. -/
theorem forwarded_step {label : ServerClipboardLabel} (other : label ≠ .check)
    (stepped : clipboard.step sha256 label = some next) :
    next.forwarded = clipboard.forwarded := by
  cases label with
  | check => exact absurd rfl other
  | userCopy =>
      cases stepped
      rfl
  | send =>
      simp only [step] at stepped
      split at stepped
      · cases stepped
      · obtain ⟨changes, _, rfl⟩ := Option.map_eq_some_iff.mp stepped
        rfl
  | remember | clear | setString | watchCount | pop =>
      simp only [step] at stepped
      split at stepped
      all_goals cases stepped
      all_goals rfl
  | watchText =>
      simp only [step] at stepped
      split at stepped
      · cases stepped
      · split at stepped
        · cases stepped
          rfl
        · cases stepped
          rfl

theorem noEcho_step_iff {label : ServerClipboardLabel} (sound : Sound sha256 clipboard)
    (noEcho : clipboard.NoEcho) (stepped : clipboard.step sha256 label = some next) :
    next.NoEcho ↔ clipboard.StillRemembered sha256 label := by
  by_cases isCheck : label = .check
  · subst isCheck
    obtain ⟨event, checking, forwarded⟩ := step_check stepped
    have genuine := sound.checking event checking
    rw [NoEcho, forwarded, StillRemembered, checking]
    rw [NoEcho] at noEcho
    constructor
    · rintro noneWritten _ ⟨⟩ payload isWriter
      refine (isEcho_iff sound genuine isWriter).mp ?_
      by_contra fresh
      rw [if_neg fresh] at noneWritten
      have byUser := noneWritten event (by simp)
      rw [byUser] at isWriter
      cases isWriter
    · intro remembered sent member
      rcases List.mem_append.mp member with earlier | last
      · exact noEcho sent earlier
      · split at last
        · cases last
        · rename_i fresh
          rw [List.mem_singleton] at last
          subst last
          refine Option.eq_none_iff_forall_not_mem.mpr fun payload isWriter => fresh ?_
          exact (isEcho_iff sound genuine isWriter).mpr (remembered sent rfl payload isWriter)
  · rw [NoEcho, forwarded_step isCheck stepped]
    refine iff_of_true noEcho ?_
    cases label with
    | check => exact absurd rfl isCheck
    | userCopy | remember | clear | setString | watchCount | watchText | send | pop => trivial

end ServerClipboard

/-- In every interleaving, no remote write is echoed if and only if each change
written for a payload is checked while the hash of this payload is remembered. -/
theorem noEcho_iff_stillRemembered (sha256 : List UInt8 → Bytes32) (changeCount : Nat)
    (copied : Option String) (labels : List ServerClipboardLabel) :
    Throughout (ServerClipboard.step sha256) ServerClipboard.NoEcho
        (.start changeCount copied) labels ↔
      Along (ServerClipboard.step sha256) (ServerClipboard.StillRemembered sha256)
        (.start changeCount copied) labels :=
  throughout_iff_along (fun _ _ _ => ServerClipboard.sound_step)
    (fun _ _ _ => ServerClipboard.noEcho_step_iff)
    (ServerClipboard.sound_start sha256 changeCount copied) (fun _ member => by cases member)

/-- Two payloads, of which the second is remembered while the change of the first
is queued. -/
def secondPayloadFirst : List ServerClipboardLabel :=
  [.remember "first", .clear, .setString, .watchCount, .watchText, .send,
    .remember "second", .pop, .check]

/-- The first payload is sent back to the peer. -/
theorem not_noEcho_secondPayloadFirst :
    ¬ ∀ labels, Throughout (ServerClipboard.step toBytes32) ServerClipboard.NoEcho
      (.start 0 none) labels := by
  intro always
  have echoed : (exec (ServerClipboard.step toBytes32) (.start 0 none)
      secondPayloadFirst).map ServerClipboard.forwarded =
        some [⟨"first", some 0⟩] := by
    decide
  obtain ⟨final, reached, forwarded⟩ := Option.map_eq_some_iff.mp echoed
  have noEcho : final.NoEcho := final_of_throughout (always _) reached
  rw [ServerClipboard.NoEcho, forwarded] at noEcho
  cases noEcho _ List.mem_cons_self

end Kmwarp.Server
