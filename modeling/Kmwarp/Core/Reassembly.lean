import Kmwarp.Core.Clipboard
import Kmwarp.Core.Wire.Grammar

/-!
# Reassembly of arbitrary frames

What the reassembler returns for a message is determined by the messages before it,
whatever flags, bytes and other frames they bring.
-/

namespace Kmwarp.Reassembler

open Foundation Wire

/-- No bytes are kept while no payload is open. -/
def Clean (reassembler : Reassembler) : Prop :=
  reassembler.inProgress = false → reassembler.buffer = []

theorem clean_ingest {reassembler : Reassembler} (clean : Clean reassembler)
    (msg : Message) : Clean (reassembler.ingest msg).2 := by
  cases msg
  case clipboardText chunkFlags bytes =>
    obtain ⟨buffer, inProgress⟩ := reassembler
    cases first : ChunkFlags.contains chunkFlags ChunkFlags.first <;>
      cases last : ChunkFlags.contains chunkFlags ChunkFlags.last <;>
      cases inProgress <;>
      simp [Clean, ingest, first, last] at clean ⊢ <;>
      first | exact clean | (split <;> simp)
  all_goals exact clean

theorem clean_ingestAll {reassembler : Reassembler} (clean : Clean reassembler)
    (msgs : List Message) : Clean (reassembler.ingestAll msgs).2 := by
  induction msgs generalizing reassembler with
  | nil => exact clean
  | cons msg msgs ih => exact ih (clean_ingest clean msg)

/-- Without a payload being assembled there is one clean state. -/
theorem eq_of_clean {reassembler other : Reassembler} (clean : Clean reassembler)
    (otherClean : Clean other) (idle : reassembler.assembly = none)
    (otherIdle : other.assembly = none) : reassembler = other := by
  have unique : ∀ state : Reassembler, Clean state → state.assembly = none →
      state = ⟨[], false⟩ := by
    rintro ⟨buffer, inProgress⟩ stateClean stateIdle
    cases inProgress with
    | true => simp [assembly] at stateIdle
    | false =>
        have empty : buffer = [] := stateClean rfl
        rw [empty]
  rw [unique reassembler clean idle, unique other otherClean otherIdle]

theorem inProgress_iff {reassembler : Reassembler} :
    reassembler.inProgress = true ↔ reassembler.assembly ≠ none := by
  cases inProgress : reassembler.inProgress <;> simp [assembly, inProgress]

/-- A finished payload is the text it encodes, or an error when it encodes none. -/
def Reports (payload : List UInt8) (result : Except ReassembleError (Option String)) :
    Prop :=
  (∀ text, asBytes text = payload → result = .ok (some text)) ∧
    ((∀ text, asBytes text ≠ payload) → result = .error (.notUtf8 ⟨payload⟩))

theorem reports_report_done (payload : List UInt8) :
    Reports payload (report (.done payload)) := by
  constructor
  · rintro text rfl
    rw [report, fromUTF8?_asBytes]
  · intro notText
    rw [report]
    cases decoded : String.fromUTF8? ⟨payload.toArray⟩ with
    | none => rfl
    | some text =>
        have isText : fromUtf8 payload = .ok text := by rw [fromUtf8, decoded]
        exact absurd (asBytes_of_fromUtf8 isText) (notText text)

/-- A payload is open behind the messages. -/
def PayloadOpen (history : List Message) : Prop :=
  Unfinished (history.filterMap chunkOf)

/-- What the reassembler returns for a message, and becomes, when it has been fed the
messages of the history. -/
structure Conforms (history : List Message) (reassembler : Reassembler) (msg : Message) :
    Prop where
  other : chunkOf msg = none → reassembler.ingest msg = (.ok none, reassembler)
  stray : ∀ chunk, chunkOf msg = some chunk → chunk.isFirst = false →
    ((reassembler.ingest msg).1 = .error .chunkWithoutFirst ↔ ¬ PayloadOpen history) ∧
      (¬ PayloadOpen history → (reassembler.ingest msg).2 = reassembler)
  more : ∀ chunk, chunkOf msg = some chunk →
    (chunk.isFirst = true ∨ PayloadOpen history) → chunk.isLast = false →
      (reassembler.ingest msg).1 = .ok none
  done : ∀ chunk, chunkOf msg = some chunk →
    (chunk.isFirst = true ∨ PayloadOpen history) → chunk.isLast = true →
      (reassembler.ingest msg).2.inProgress = false ∧
        ∃ payload, SinceFirst ((history ++ [msg]).filterMap chunkOf) payload ∧
          Reports payload (reassembler.ingest msg).1
  inProgress : reassembler.inProgress = true ↔ PayloadOpen history
  clean : reassembler.inProgress = false → reassembler.buffer = []

theorem report_ne_stray (payload : List UInt8) :
    report (.done payload) ≠ .error .chunkWithoutFirst := by
  rw [report]
  split <;> simp

/-- The reassembler does with every message what the messages before it determine. -/
theorem ingestAll_conforms (history : List Message) (msg : Message) :
    Conforms history (ingestAll {} history).2 msg := by
  let reassembler := (ingestAll {} history).2
  have assembly : reassembler.assembly = (feedAll none (history.filterMap chunkOf)).2 :=
    (ingestAll_eq_feedAll history {}).2.1
  have assembles : Assembles (history.filterMap chunkOf) reassembler.assembly :=
    assembly ▸ assembles_feedAll _
  have clean : Clean reassembler := clean_ingestAll (fun _ => rfl) history
  have inProgress : reassembler.inProgress = true ↔ PayloadOpen history := by
    rw [inProgress_iff]
    cases assembled : reassembler.assembly with
    | none =>
        rw [assembled] at assembles
        exact iff_of_false (fun busy => busy rfl) assembles
    | some items =>
        rw [assembled] at assembles
        exact iff_of_true (Option.some_ne_none items) assembles.1
  constructor
  · intro other
    exact ingest_of_not_chunk other reassembler
  · intro chunk isChunk notFirst
    obtain ⟨reported, next⟩ := ingest_of_chunk isChunk reassembler
    rcases assembles.feed_cases chunk with
      ⟨_, finished, fed⟩ | ⟨isFirst | isOpen, items, _, fed⟩
    · rw [fed] at reported next
      refine ⟨iff_of_true reported finished, fun _ => ?_⟩
      refine eq_of_clean (clean_ingest clean msg) clean next ?_
      by_contra busy
      exact finished (inProgress.mp (inProgress_iff.mpr busy))
    · rw [notFirst] at isFirst
      cases isFirst
    · refine ⟨iff_of_false ?_ (not_not_intro isOpen), fun finished => absurd isOpen finished⟩
      rw [reported, fed]
      split
      · exact report_ne_stray items
      · simp [report]
  · intro chunk isChunk isOpen notLast
    obtain ⟨items, _, fed⟩ := assembles.feed_of_open isOpen
    rw [(ingest_of_chunk isChunk reassembler).1, fed, notLast]
    rfl
  · intro chunk isChunk isOpen isLast
    obtain ⟨reported, next⟩ := ingest_of_chunk isChunk reassembler
    obtain ⟨items, since, fed⟩ := assembles.feed_of_open isOpen
    have appended : (history ++ [msg]).filterMap chunkOf =
        history.filterMap chunkOf ++ [chunk] := by
      rw [List.filterMap_append, List.filterMap_cons_some isChunk, List.filterMap_nil]
    rw [fed, isLast] at reported next
    refine ⟨?_, items, appended ▸ since, ?_⟩
    · rw [Bool.eq_false_iff, ne_eq, inProgress_iff, not_not]
      exact next
    · rw [reported]
      exact reports_report_done items
  · exact inProgress
  · exact clean

end Kmwarp.Reassembler
