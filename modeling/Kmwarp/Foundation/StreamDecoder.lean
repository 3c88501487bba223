import Mathlib.Data.List.Basic

/-!
# Incremental decoding of a cut stream

An incremental decoder looks at the front of a buffer.  It decodes one item,
reports that the front will never decode, or asks for more input.  The
accumulate-and-retry loop built on such a decoder returns the items of the
uncut stream, whatever reads the stream arrives in.
-/

namespace Kmwarp.Foundation

universe u v w

variable {β : Type u} {ε : Type v} {μ : Type w}

/-- A decoder whose answers, once given, do not change when input arrives
behind them. -/
structure StreamDecoder (β : Type u) (ε : Type v) (μ : Type w) where
  decode : List β → Except ε (Option μ) × List β
  incomplete_keeps {buf rest : List β} :
    decode buf = (.ok none, rest) → rest = buf
  item_shortens {buf rest : List β} {item : μ} :
    decode buf = (.ok (some item), rest) → rest.length < buf.length
  item_append {buf rest : List β} {item : μ} (more : List β) :
    decode buf = (.ok (some item), rest) →
      decode (buf ++ more) = (.ok (some item), rest ++ more)
  error_append {buf rest : List β} {error : ε} (more : List β) :
    decode buf = (.error error, rest) →
      rest = buf ∧ decode (buf ++ more) = (.error error, buf ++ more)

/-- Why a stream yields no further item. -/
inductive Ending (ε : Type v) where
  | failed (error : ε)
  | endOfStream
deriving DecidableEq

namespace StreamDecoder

/-- The items of a whole stream, in order, and why there are no more. -/
inductive Parses (decoder : StreamDecoder β ε μ) :
    List β → List μ → Ending ε → Prop where
  | item {stream rest : List β} {head : μ} {items : List μ} {ending : Ending ε}
      (decoded : decoder.decode stream = (.ok (some head), rest))
      (tail : Parses decoder rest items ending) :
      Parses decoder stream (head :: items) ending
  | failed {stream rest : List β} {error : ε}
      (decoded : decoder.decode stream = (.error error, rest)) :
      Parses decoder stream [] (.failed error)
  | incomplete {stream rest : List β}
      (decoded : decoder.decode stream = (.ok none, rest)) :
      Parses decoder stream [] .endOfStream

variable (decoder : StreamDecoder β ε μ)

theorem exists_parses (stream : List β) :
    ∃ items ending, decoder.Parses stream items ending := by
  rcases decoded : decoder.decode stream with ⟨result, rest⟩
  match result with
  | .error error => exact ⟨[], _, .failed decoded⟩
  | .ok none => exact ⟨[], _, .incomplete decoded⟩
  | .ok (some head) =>
      have shorter := decoder.item_shortens decoded
      obtain ⟨items, ending, tail⟩ := exists_parses rest
      exact ⟨head :: items, ending, .item decoded tail⟩
termination_by stream.length

variable {decoder}

theorem Parses.unique {stream : List β} {items otherItems : List μ}
    {ending otherEnding : Ending ε}
    (first : decoder.Parses stream items ending)
    (second : decoder.Parses stream otherItems otherEnding) :
    otherItems = items ∧ otherEnding = ending := by
  induction first generalizing otherItems with
  | item decoded _ ih =>
      cases second with
      | item again tail =>
          rw [decoded] at again
          cases again
          exact ⟨congrArg _ (ih tail).1, (ih tail).2⟩
      | failed again | incomplete again =>
          rw [decoded] at again
          cases again
  | failed decoded =>
      cases second with
      | failed again =>
          rw [decoded] at again
          cases again
          exact ⟨rfl, rfl⟩
      | item again _ | incomplete again =>
          rw [decoded] at again
          cases again
  | incomplete decoded =>
      cases second with
      | incomplete => exact ⟨rfl, rfl⟩
      | item again _ | failed again =>
          rw [decoded] at again
          cases again

/-! ## The read loop -/

variable (decoder) in
/-- Decode from the buffer, and read more only when the decoder asks for it.
The reads still to come are given; after the last of them, as after an empty
one, the stream is over. -/
def readItem : List (List β) → List β →
    Except (Ending ε) μ × List (List β) × List β
  | reads, buf =>
      match decoder.decode buf with
      | (.ok (some item), rest) => (.ok item, reads, rest)
      | (.error error, rest) => (.error (.failed error), reads, rest)
      | (.ok none, rest) =>
          match reads with
          | [] => (.error .endOfStream, [], rest)
          | [] :: later => (.error .endOfStream, later, rest)
          | read :: later => readItem later (rest ++ read)

variable (decoder) in
/-- The results of successive calls, and what they leave. -/
def readItems : Nat → List (List β) → List β →
    List (Except (Ending ε) μ) × List (List β) × List β
  | 0, reads, buf => ([], reads, buf)
  | count + 1, reads, buf =>
      let (result, reads, buf) := decoder.readItem reads buf
      let (results, reads, buf) := readItems count reads buf
      (result :: results, reads, buf)

/-- What the call with the given index returns on a stream with the given
parse: its items in order, then the ending for ever. -/
def resultAt (items : List μ) (ending : Ending ε) (index : Nat) :
    Except (Ending ε) μ :=
  match items[index]? with
  | some item => .ok item
  | none => .error ending

/-- The first result of a parse, and the parse that remains after it. -/
theorem readItem_spec {reads : List (List β)} {buf : List β} {items : List μ}
    {ending : Ending ε}
    (nonempty : ∀ read ∈ reads, read ≠ [])
    (parses : decoder.Parses (buf ++ reads.flatten) items ending) :
    ∃ later rest, decoder.readItem reads buf = (resultAt items ending 0, later, rest) ∧
      (∀ read ∈ later, read ≠ []) ∧
      decoder.Parses (rest ++ later.flatten) items.tail ending := by
  induction reads generalizing buf with
  | nil =>
      rw [List.flatten_nil, List.append_nil] at parses
      cases parses with
      | item decoded tail =>
          refine ⟨[], _, by rw [readItem, decoded]; rfl, nonempty, ?_⟩
          simpa using tail
      | failed decoded =>
          refine ⟨[], _, by rw [readItem, decoded]; rfl, nonempty, ?_⟩
          rw [(decoder.error_append [] decoded).1]
          simpa using Parses.failed decoded
      | incomplete decoded =>
          refine ⟨[], _, by rw [readItem, decoded]; rfl, nonempty, ?_⟩
          rw [decoder.incomplete_keeps decoded]
          simpa using Parses.incomplete decoded
  | cons read later ih =>
      have laterNonempty : ∀ read ∈ later, read ≠ [] := fun other member =>
        nonempty other (List.mem_cons_of_mem _ member)
      rcases decoded : decoder.decode buf with ⟨result, rest⟩
      match result with
      | .ok (some head) =>
          have whole := decoder.item_append (read :: later).flatten decoded
          obtain ⟨tail, parsed, rfl⟩ : ∃ tail,
              decoder.Parses (rest ++ (read :: later).flatten) tail ending ∧
                items = head :: tail := by
            have reference := exists_parses decoder (rest ++ (read :: later).flatten)
            obtain ⟨tail, tailEnding, parsed⟩ := reference
            obtain ⟨rfl, rfl⟩ := parses.unique (.item whole parsed)
            exact ⟨tail, parsed, rfl⟩
          exact ⟨_, rest, by rw [readItem, decoded]; rfl, nonempty, parsed⟩
      | .error error =>
          obtain ⟨rfl, whole⟩ :=
            decoder.error_append (read :: later).flatten decoded
          obtain ⟨rfl, rfl⟩ := parses.unique (.failed whole)
          exact ⟨_, _, by rw [readItem, decoded]; rfl, nonempty, .failed whole⟩
      | .ok none =>
          have same := decoder.incomplete_keeps decoded
          subst same
          have unread : decoder.Parses (rest ++ read ++ later.flatten) items ending := by
            simpa using parses
          obtain ⟨left, remaining, result, leftNonempty, parsed⟩ :=
            ih laterNonempty unread
          refine ⟨left, remaining, ?_, leftNonempty, parsed⟩
          rw [readItem, decoded]
          cases read with
          | nil => exact absurd rfl (nonempty [] List.mem_cons_self)
          | cons byte bytes => exact result

/-- Successive calls return the parse of the whole stream, however it is cut. -/
theorem readItems_eq (count : Nat) {reads : List (List β)} {buf : List β}
    {items : List μ} {ending : Ending ε}
    (nonempty : ∀ read ∈ reads, read ≠ [])
    (parses : decoder.Parses (buf ++ reads.flatten) items ending) :
    (decoder.readItems count reads buf).1 =
      (List.range count).map (resultAt items ending) := by
  induction count generalizing reads buf items with
  | zero => rfl
  | succ count ih =>
      obtain ⟨later, rest, result, laterNonempty, tail⟩ :=
        readItem_spec nonempty parses
      have shifted : resultAt items ending ∘ Nat.succ = resultAt items.tail ending := by
        funext index
        cases items <;> simp [resultAt]
      rw [readItems, result, List.range_succ_eq_map, List.map_cons, List.map_map,
        shifted, ← ih laterNonempty tail]

theorem readItems_add (first second : Nat) (reads : List (List β)) (buf : List β) :
    (decoder.readItems (first + second) reads buf).1 =
      (decoder.readItems first reads buf).1 ++
        (decoder.readItems second (decoder.readItems first reads buf).2.1
          (decoder.readItems first reads buf).2.2).1 := by
  induction first generalizing reads buf with
  | zero => simp [readItems]
  | succ first ih => simp [Nat.succ_add, readItems, ih]

end StreamDecoder

end Kmwarp.Foundation
