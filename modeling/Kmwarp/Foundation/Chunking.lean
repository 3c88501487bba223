import Mathlib.Data.List.Induction

/-!
# Payloads in chunks

A payload is sent as chunks of which the first and the last are marked, and
nothing else identifies them.  The receiver starts over at every first chunk
and completes at every last one.  A sender may give up a payload at any chunk,
and chunks may be lost on the way.
-/

namespace Kmwarp.Foundation

universe u

variable {β : Type u}

structure Chunk (β : Type u) where
  isFirst : Bool
  isLast : Bool
  items : List β
deriving DecidableEq

/-! ## Cutting -/

/-- Consecutive pieces of at most `size` items. -/
def pieces (size : Nat) (positive : 0 < size) : List β → List (List β)
  | [] => []
  | item :: items =>
      (item :: items).take size :: pieces size positive ((item :: items).drop size)
termination_by items => items.length
decreasing_by
  simp only [List.length_drop, List.length_cons]
  omega

/-- The pieces as chunks, with the first and the last of them marked. -/
def marked (parts : List (List β)) : List (Chunk β) :=
  parts.mapIdx fun index part => ⟨index = 0, index = parts.length - 1, part⟩

theorem flatten_pieces (size : Nat) (positive : 0 < size) (items : List β) :
    (pieces size positive items).flatten = items := by
  induction items using pieces.induct size positive with
  | case1 => simp [pieces]
  | case2 item items ih =>
      rw [pieces, List.flatten_cons, ih, List.take_append_drop]

theorem length_le_of_mem_pieces {size : Nat} {positive : 0 < size} {items part : List β}
    (member : part ∈ pieces size positive items) : part.length ≤ size := by
  induction items using pieces.induct size positive with
  | case1 => simp [pieces] at member
  | case2 item items ih =>
      rw [pieces] at member
      rcases List.mem_cons.mp member with rfl | later
      · exact List.length_take_le size _
      · exact ih later

theorem pieces_ne_nil {size : Nat} {positive : 0 < size} {items : List β}
    (nonempty : items ≠ []) : pieces size positive items ≠ [] := by
  cases items with
  | nil => exact absurd rfl nonempty
  | cons item items =>
      rw [pieces]
      exact List.cons_ne_nil _ _

/-- A full piece is cut off the front. -/
theorem pieces_append {size : Nat} {positive : 0 < size} {part : List β}
    (full : part.length = size) (items : List β) :
    pieces size positive (part ++ items) = part :: pieces size positive items := by
  cases part with
  | nil =>
      subst full
      exact absurd positive (Nat.lt_irrefl 0)
  | cons item part =>
      rw [List.cons_append, pieces, ← List.cons_append, List.take_left' full,
        List.drop_left' full]

theorem pieces_of_short {size : Nat} {positive : 0 < size} {part : List β}
    (nonempty : part ≠ []) (short : part.length ≤ size) :
    pieces size positive part = [part] := by
  cases part with
  | nil => exact absurd rfl nonempty
  | cons item part =>
      rw [pieces, List.take_of_length_le short, List.drop_of_length_le short, pieces]

/-! ## Transmissions -/

/-- The chunks complete the payload behind what is already assembled. -/
inductive Finishes : List β → List (Chunk β) → List β → Prop where
  | last (buffer items : List β) :
      Finishes buffer [⟨false, true, items⟩] (buffer ++ items)
  | more {buffer items payload : List β} {rest : List (Chunk β)}
      (tail : Finishes (buffer ++ items) rest payload) :
      Finishes buffer (⟨false, false, items⟩ :: rest) payload

/-- The chunks are all of a payload. -/
inductive Transmits : List (Chunk β) → List β → Prop where
  | whole (items : List β) : Transmits [⟨true, true, items⟩] items
  | several {items payload : List β} {rest : List (Chunk β)}
      (tail : Finishes items rest payload) :
      Transmits (⟨true, false, items⟩ :: rest) payload

theorem finishes_mapIdx {parts : List (List β)} (nonempty : parts ≠ [])
    (buffer : List β) :
    Finishes buffer
      (parts.mapIdx fun index part => ⟨false, index + 1 = parts.length, part⟩)
      (buffer ++ parts.flatten) := by
  induction parts generalizing buffer with
  | nil => exact absurd rfl nonempty
  | cons part parts ih =>
      cases parts with
      | nil => simpa using Finishes.last buffer part
      | cons next parts =>
          have tail := ih (List.cons_ne_nil _ _) (buffer ++ part)
          rw [List.append_assoc] at tail
          rw [List.mapIdx_cons, List.flatten_cons]
          simpa using Finishes.more tail

/-- Marked pieces transmit what they concatenate to. -/
theorem transmits_marked {parts : List (List β)} (nonempty : parts ≠ []) :
    Transmits (marked parts) parts.flatten := by
  cases parts with
  | nil => exact absurd rfl nonempty
  | cons part parts =>
      rw [marked, List.mapIdx_cons, List.flatten_cons]
      cases parts with
      | nil => simpa using Transmits.whole part
      | cons next parts =>
          have tail := finishes_mapIdx (List.cons_ne_nil next parts) part
          simpa using Transmits.several tail

/-! ## Receiving -/

/-- What the receiver makes of a chunk. -/
inductive Fed (β : Type u) where
  | stray
  | more
  | done (payload : List β)
deriving DecidableEq

/-- Feed one chunk to the payload being assembled, if one is. -/
def feed (assembly : Option (List β)) (chunk : Chunk β) : Fed β × Option (List β) :=
  match if chunk.isFirst then some [] else assembly with
  | none => (.stray, none)
  | some buffer =>
      if chunk.isLast then (.done (buffer ++ chunk.items), none)
      else (.more, some (buffer ++ chunk.items))

def feedAll : Option (List β) → List (Chunk β) → List (Fed β) × Option (List β)
  | assembly, [] => ([], assembly)
  | assembly, chunk :: chunks =>
      let (result, assembly) := feed assembly chunk
      let (results, assembly) := feedAll assembly chunks
      (result :: results, assembly)

def Fed.payload? : Fed β → Option (List β)
  | .done payload => some payload
  | _ => none

/-- The payloads completed by a list of results. -/
def completed (results : List (Fed β)) : List (List β) :=
  results.filterMap Fed.payload?

@[simp] theorem completed_cons (result : Fed β) (results : List (Fed β)) :
    completed (result :: results) = result.payload?.toList ++ completed results := by
  cases payload : result.payload? <;> simp [completed, payload]

@[simp] theorem completed_append (first second : List (Fed β)) :
    completed (first ++ second) = completed first ++ completed second :=
  List.filterMap_append

theorem feedAll_append (assembly : Option (List β)) (first second : List (Chunk β)) :
    feedAll assembly (first ++ second) =
      ((feedAll assembly first).1 ++ (feedAll (feedAll assembly first).2 second).1,
        (feedAll (feedAll assembly first).2 second).2) := by
  induction first generalizing assembly with
  | nil => rfl
  | cons chunk first ih => simp only [List.cons_append, feedAll, ih]

/-! ## What a history leaves open -/

/-- Some first chunk has not been followed by a last one, nor is it one. -/
def Unfinished (chunks : List (Chunk β)) : Prop :=
  ∃ before first rest, chunks = before ++ first :: rest ∧ first.isFirst = true ∧
    ∀ chunk ∈ first :: rest, chunk.isLast = false

/-- The items of the latest first chunk and of all chunks since. -/
def SinceFirst (chunks : List (Chunk β)) (items : List β) : Prop :=
  ∃ before first rest, chunks = before ++ first :: rest ∧ first.isFirst = true ∧
    (∀ chunk ∈ rest, chunk.isFirst = false) ∧
    items = (first :: rest).flatMap Chunk.items

/-- A list that ends in a chunk is split at this chunk or earlier. -/
private theorem concat_eq_append_cons {chunks before rest : List (Chunk β)}
    {chunk first : Chunk β} (split : chunks ++ [chunk] = before ++ first :: rest) :
    (chunks = before ∧ chunk = first ∧ rest = []) ∨
      ∃ middle, chunks = before ++ first :: middle ∧ rest = middle ++ [chunk] := by
  rcases List.eq_nil_or_concat rest with rfl | ⟨middle, last, rfl⟩
  · obtain ⟨rfl, same⟩ := List.append_inj' split rfl
    exact .inl ⟨rfl, List.cons.inj same |>.1, rfl⟩
  · rw [List.concat_eq_append, ← List.cons_append, ← List.append_assoc] at split
    obtain ⟨rfl, same⟩ := List.append_inj' split rfl
    refine .inr ⟨middle, rfl, ?_⟩
    rw [List.concat_eq_append, List.cons.inj same |>.1]

theorem unfinished_concat {chunks : List (Chunk β)} {chunk : Chunk β} :
    Unfinished (chunks ++ [chunk]) ↔
      chunk.isLast = false ∧ (chunk.isFirst = true ∨ Unfinished chunks) := by
  constructor
  · rintro ⟨before, first, rest, split, isFirst, noLast⟩
    rcases concat_eq_append_cons split with ⟨_, rfl, _⟩ | ⟨middle, rfl, rfl⟩
    · exact ⟨noLast _ List.mem_cons_self, .inl isFirst⟩
    · rw [← List.cons_append, List.forall_mem_append] at noLast
      exact ⟨noLast.2 _ (List.mem_singleton_self _),
        .inr ⟨before, first, middle, rfl, isFirst, noLast.1⟩⟩
  · rintro ⟨notLast, isFirst | ⟨before, first, rest, rfl, isFirst, noLast⟩⟩
    · exact ⟨chunks, chunk, [], rfl, isFirst, by simpa using notLast⟩
    · refine ⟨before, first, rest ++ [chunk], by simp, isFirst, ?_⟩
      rw [← List.cons_append, List.forall_mem_append]
      exact ⟨noLast, by simpa using notLast⟩

theorem sinceFirst_concat_of_isFirst {chunks : List (Chunk β)} {chunk : Chunk β}
    (isFirst : chunk.isFirst = true) : SinceFirst (chunks ++ [chunk]) chunk.items :=
  ⟨chunks, chunk, [], rfl, isFirst, fun _ => by simp, by simp⟩

theorem SinceFirst.concat {chunks : List (Chunk β)} {chunk : Chunk β} {items : List β}
    (since : SinceFirst chunks items) (notFirst : chunk.isFirst = false) :
    SinceFirst (chunks ++ [chunk]) (items ++ chunk.items) := by
  obtain ⟨before, first, rest, rfl, isFirst, noFirst, rfl⟩ := since
  refine ⟨before, first, rest ++ [chunk], by simp, isFirst, ?_, by simp⟩
  rw [List.forall_mem_append]
  exact ⟨noFirst, by simpa using notFirst⟩

/-- The items since the latest first chunk are being assembled while these chunks are
unfinished, and nothing is otherwise. -/
def Assembles (chunks : List (Chunk β)) : Option (List β) → Prop
  | some items => Unfinished chunks ∧ SinceFirst chunks items
  | none => ¬ Unfinished chunks

/-- A chunk is stray when it is no first one and nothing is unfinished, and otherwise
it is added to the items since the latest first chunk. -/
theorem Assembles.feed_cases {chunks : List (Chunk β)} {assembly : Option (List β)}
    (assembles : Assembles chunks assembly) (chunk : Chunk β) :
    (chunk.isFirst = false ∧ ¬ Unfinished chunks ∧ feed assembly chunk = (.stray, none)) ∨
      ((chunk.isFirst = true ∨ Unfinished chunks) ∧
        ∃ items, SinceFirst (chunks ++ [chunk]) items ∧
          feed assembly chunk =
            if chunk.isLast then (.done items, none) else (.more, some items)) := by
  cases isFirst : chunk.isFirst with
  | true =>
      refine .inr ⟨.inl rfl, chunk.items, sinceFirst_concat_of_isFirst isFirst, ?_⟩
      simp [feed, isFirst]
  | false =>
      cases assembly with
      | none => exact .inl ⟨rfl, assembles, by simp [feed, isFirst]⟩
      | some items =>
          refine .inr ⟨.inr assembles.1, items ++ chunk.items,
            assembles.2.concat isFirst, ?_⟩
          simp [feed, isFirst]

/-- Where a payload is open, the chunk is not stray. -/
theorem Assembles.feed_of_open {chunks : List (Chunk β)} {assembly : Option (List β)}
    (assembles : Assembles chunks assembly) {chunk : Chunk β}
    (isOpen : chunk.isFirst = true ∨ Unfinished chunks) :
    ∃ items, SinceFirst (chunks ++ [chunk]) items ∧
      feed assembly chunk = if chunk.isLast then (.done items, none) else (.more, some items) := by
  rcases assembles.feed_cases chunk with ⟨notFirst, finished, _⟩ | ⟨_, added⟩
  · rcases isOpen with isFirst | unfinished
    · rw [notFirst] at isFirst
      cases isFirst
    · exact absurd unfinished finished
  · exact added

theorem Assembles.feed {chunks : List (Chunk β)} {assembly : Option (List β)}
    (assembles : Assembles chunks assembly) (chunk : Chunk β) :
    Assembles (chunks ++ [chunk]) (feed assembly chunk).2 := by
  rcases assembles.feed_cases chunk with
    ⟨notFirst, finished, fed⟩ | ⟨isOpen, items, since, fed⟩
  · rw [fed, Assembles, unfinished_concat]
    simp [notFirst, finished]
  · rw [fed]
    cases isLast : chunk.isLast with
    | true =>
        rw [if_pos rfl, Assembles, unfinished_concat]
        simp [isLast]
    | false =>
        rw [if_neg Bool.false_ne_true]
        exact ⟨unfinished_concat.mpr ⟨isLast, isOpen⟩, since⟩

theorem assembles_feedAll (chunks : List (Chunk β)) :
    Assembles chunks (feedAll none chunks).2 := by
  induction chunks using List.reverseRecOn with
  | nil =>
      rintro ⟨before, first, rest, split, _⟩
      simp at split
  | append_singleton chunks chunk ih =>
      rw [feedAll_append]
      exact ih.feed chunk

/-- The chunks complete the payload from where the receiver stands. -/
def Remains (assembly : Option (List β)) (chunks : List (Chunk β)) (payload : List β) :
    Prop :=
  Transmits chunks payload ∨ ∃ buffer, assembly = some buffer ∧ Finishes buffer chunks payload

/-- The next chunk either completes the payload or leaves the rest of it. -/
theorem Remains.feed {assembly : Option (List β)} {chunks : List (Chunk β)}
    {payload : List β} (remains : Remains assembly chunks payload) :
    ∃ chunk rest, chunks = chunk :: rest ∧
      ((rest = [] ∧ feed assembly chunk = (.done payload, none)) ∨
        ∃ buffer, feed assembly chunk = (.more, some buffer) ∧
          Finishes buffer rest payload) := by
  rcases remains with transmits | ⟨buffer, rfl, finishes⟩
  · cases transmits with
    | whole => exact ⟨_, _, rfl, .inl ⟨rfl, rfl⟩⟩
    | several tail => exact ⟨_, _, rfl, .inr ⟨_, rfl, tail⟩⟩
  · cases finishes with
    | last => exact ⟨_, _, rfl, .inl ⟨rfl, rfl⟩⟩
    | more tail => exact ⟨_, _, rfl, .inr ⟨_, rfl, tail⟩⟩

/-! ## A sender that gives up -/

/-- Any part of the rest of a payload completes it exactly when it is all of
the rest. -/
theorem feedAll_finishes {buffer payload : List β} {chunks sent : List (Chunk β)}
    (finishes : Finishes buffer chunks payload) (isPrefix : sent <+: chunks) :
    .stray ∉ (feedAll (some buffer) sent).1 ∧
      completed (feedAll (some buffer) sent).1 =
        if sent.length = chunks.length then [payload] else [] := by
  induction finishes generalizing sent with
  | last buffer items =>
      cases sent with
      | nil => simp [feedAll, completed]
      | cons chunk sent =>
          obtain ⟨rfl, empty⟩ := List.cons_prefix_cons.mp isPrefix
          obtain rfl := List.prefix_nil.mp empty
          simp [feedAll, feed, completed, Fed.payload?]
  | more tail ih =>
      cases sent with
      | nil => simp [feedAll, completed]
      | cons chunk sent =>
          obtain ⟨rfl, later⟩ := List.cons_prefix_cons.mp isPrefix
          obtain ⟨noStray, results⟩ := ih later
          simp only [feedAll, feed, Bool.false_eq_true, if_false]
          constructor
          · simpa using noStray
          · simpa [Fed.payload?] using results

/-- An attempt to send a payload: some of its chunks, up to where the sender
gave up. -/
structure Attempt (β : Type u) where
  payload : List β
  chunks : List (Chunk β)
  sent : List (Chunk β)
  transmits : Transmits chunks payload
  isPrefix : sent <+: chunks

def Attempt.isComplete (attempt : Attempt β) : Bool :=
  attempt.sent.length = attempt.chunks.length

/-- An attempt delivers its payload exactly when it was not given up, whatever
was being assembled before. -/
theorem feedAll_attempt (attempt : Attempt β) (assembly : Option (List β)) :
    .stray ∉ (feedAll assembly attempt.sent).1 ∧
      completed (feedAll assembly attempt.sent).1 =
        if attempt.isComplete then [attempt.payload] else [] := by
  obtain ⟨payload, chunks, sent, transmits, isPrefix⟩ := attempt
  simp only [Attempt.isComplete, decide_eq_true_eq]
  cases sent with
  | nil => cases transmits <;> simp [feedAll, completed]
  | cons chunk sent =>
      cases transmits with
      | whole =>
          obtain ⟨rfl, empty⟩ := List.cons_prefix_cons.mp isPrefix
          obtain rfl := List.prefix_nil.mp empty
          simp [feedAll, feed, completed, Fed.payload?]
      | several tail =>
          obtain ⟨rfl, later⟩ := List.cons_prefix_cons.mp isPrefix
          obtain ⟨noStray, results⟩ := feedAll_finishes tail later
          simp only [feedAll, feed, if_true, Bool.false_eq_true, if_false, List.nil_append]
          constructor
          · simpa using noStray
          · simpa [Fed.payload?] using results

/-- Over a FIFO channel that loses nothing, exactly the payloads that were not
given up are completed, in order. -/
theorem feedAll_attempts (attempts : List (Attempt β)) (assembly : Option (List β)) :
    .stray ∉ (feedAll assembly (attempts.flatMap Attempt.sent)).1 ∧
      completed (feedAll assembly (attempts.flatMap Attempt.sent)).1 =
        (attempts.filter Attempt.isComplete).map Attempt.payload := by
  induction attempts generalizing assembly with
  | nil => simp [feedAll, completed]
  | cons attempt attempts ih =>
      obtain ⟨noStray, results⟩ := feedAll_attempt attempt assembly
      obtain ⟨laterNoStray, laterResults⟩ := ih (feedAll assembly attempt.sent).2
      rw [List.flatMap_cons, feedAll_append]
      constructor
      · intro stray
        rcases List.mem_append.mp stray with early | late
        · exact noStray early
        · exact laterNoStray late
      · rw [completed_append, results, laterResults, List.filter_cons]
        cases attempt.isComplete <;> rfl

/-! ## A channel that loses chunks -/

/-- Where a sender stands in the payload it started last: what has been sent of
it, and what is left.  Nothing is left of a completed payload. -/
abbrev Cursor (β : Type u) := Option (List β × List (Chunk β))

/-- One chunk sent: the next one of the current payload, or the first one of
another payload. -/
inductive Sends (valid : List β → Prop) : Cursor β → Chunk β → Cursor β → Prop where
  | whole {cursor : Cursor β} {items : List β} (isValid : valid items) :
      Sends valid cursor ⟨true, true, items⟩ none
  | opening {cursor : Cursor β} {items payload : List β} {rest : List (Chunk β)}
      (tail : Finishes items rest payload) (isValid : valid payload) :
      Sends valid cursor ⟨true, false, items⟩ (some (items, rest))
  | middle {buffer items : List β} {rest : List (Chunk β)} :
      Sends valid (some (buffer, ⟨false, false, items⟩ :: rest)) ⟨false, false, items⟩
        (some (buffer ++ items, rest))
  | closing {buffer items : List β} :
      Sends valid (some (buffer, [⟨false, true, items⟩])) ⟨false, true, items⟩ none

inductive SendsAll (valid : List β → Prop) :
    Cursor β → List (Chunk β) → Cursor β → Prop where
  | nil (cursor : Cursor β) : SendsAll valid cursor [] cursor
  | cons {start next final : Cursor β} {chunk : Chunk β} {chunks : List (Chunk β)}
      (head : Sends valid start chunk next) (tail : SendsAll valid next chunks final) :
      SendsAll valid start (chunk :: chunks) final

/-- The payload the sender is in is a valid one. -/
def Cursor.Valid (valid : List β → Prop) (cursor : Cursor β) : Prop :=
  ∀ buffer rest, cursor = some (buffer, rest) →
    ∃ payload, Finishes buffer rest payload ∧ valid payload

variable {valid weaker : List β → Prop}

theorem Sends.mono (weaken : ∀ payload, valid payload → weaker payload)
    {start next : Cursor β} {chunk : Chunk β} (sends : Sends valid start chunk next) :
    Sends weaker start chunk next := by
  cases sends with
  | whole isValid => exact .whole (weaken _ isValid)
  | opening tail isValid => exact .opening tail (weaken _ isValid)
  | middle => exact .middle
  | closing => exact .closing

theorem SendsAll.mono (weaken : ∀ payload, valid payload → weaker payload)
    {start final : Cursor β} {chunks : List (Chunk β)}
    (sends : SendsAll valid start chunks final) : SendsAll weaker start chunks final := by
  induction sends with
  | nil cursor => exact .nil cursor
  | cons head _ ih => exact .cons (head.mono weaken) ih

theorem SendsAll.concat {start middle final : Cursor β} {chunks : List (Chunk β)}
    {chunk : Chunk β} (sends : SendsAll valid start chunks middle)
    (last : Sends valid middle chunk final) :
    SendsAll valid start (chunks ++ [chunk]) final := by
  induction sends with
  | nil => exact .cons last (.nil final)
  | cons head _ ih => exact .cons head (ih last)

theorem Cursor.Valid.mono (weaken : ∀ payload, valid payload → weaker payload)
    {cursor : Cursor β} (isValid : cursor.Valid valid) : cursor.Valid weaker := by
  intro buffer rest same
  obtain ⟨payload, finishes, holds⟩ := isValid buffer rest same
  exact ⟨payload, finishes, weaken payload holds⟩

theorem Cursor.valid_none : Cursor.Valid valid (none : Cursor β) := by
  intro buffer rest same
  cases same

theorem Sends.keeps_valid {start next : Cursor β} {chunk : Chunk β}
    (sends : Sends valid start chunk next) (isValid : start.Valid valid) :
    next.Valid valid := by
  cases sends with
  | whole _ => exact Cursor.valid_none
  | opening tail holds =>
      rintro _ _ ⟨⟩
      exact ⟨_, tail, holds⟩
  | middle =>
      rintro _ _ ⟨⟩
      obtain ⟨payload, finishes, holds⟩ := isValid _ _ rfl
      cases finishes with
      | more tail => exact ⟨payload, tail, holds⟩
  | closing => exact Cursor.valid_none

theorem SendsAll.keeps_valid {start final : Cursor β} {chunks : List (Chunk β)}
    (sends : SendsAll valid start chunks final) (isValid : start.Valid valid) :
    final.Valid valid := by
  induction sends with
  | nil => exact isValid
  | cons head _ ih => exact ih (head.keeps_valid isValid)

/-- What is left to send is nothing, all of a payload, or the rest of the
current one. -/
def Cursor.Pending (valid : List β → Prop) (cursor : Cursor β)
    (chunks : List (Chunk β)) : Prop :=
  chunks = [] ∨ (∃ payload, Transmits chunks payload ∧ valid payload) ∨
    ∃ buffer, cursor = some (buffer, chunks)

/-- The chunk in front of what is left is the next one to be sent. -/
theorem Cursor.Pending.send {cursor : Cursor β} {chunk : Chunk β}
    {rest : List (Chunk β)} (pending : cursor.Pending valid (chunk :: rest))
    (isValid : cursor.Valid valid) :
    ∃ next : Cursor β, Sends valid cursor chunk next ∧ next.Pending valid rest := by
  rcases pending with none | ⟨payload, transmits, holds⟩ | ⟨buffer, rfl⟩
  · cases none
  · cases transmits with
    | whole => exact ⟨none, .whole holds, .inl rfl⟩
    | several tail => exact ⟨_, .opening tail holds, .inr (.inr ⟨_, rfl⟩)⟩
  · obtain ⟨payload, finishes, _⟩ := isValid _ _ rfl
    cases finishes with
    | last => exact ⟨none, .closing, .inl rfl⟩
    | more tail => exact ⟨_, .middle, .inr (.inr ⟨_, rfl⟩)⟩

/-- The receiver has assembled what the sender has sent, or nothing. -/
def Tracks (cursor : Cursor β) (assembly : Option (List β)) : Prop :=
  assembly = none ∨ ∃ buffer rest, cursor = some (buffer, rest) ∧ assembly = some buffer

/-- A first chunk is received alike in every state; any other one is received
as the sender meant it by a receiver that tracks the sender.  Either way the
receiver tracks the sender behind it, and completes valid payloads only. -/
theorem feed_sends {start next : Cursor β} {chunk : Chunk β}
    (sends : Sends valid start chunk next) (isValid : start.Valid valid)
    {assembly : Option (List β)}
    (received : chunk.isFirst = true ∨ Tracks start assembly) :
    Tracks next (feed assembly chunk).2 ∧
      ∀ payload ∈ (feed assembly chunk).1.payload?, valid payload := by
  cases sends with
  | whole holds => simpa [feed, Tracks, Fed.payload?] using holds
  | opening tail holds => simp [feed, Tracks, Fed.payload?]
  | @middle buffer items rest =>
      rcases received with isFirst | rfl | ⟨_, _, ⟨⟩, rfl⟩
      · cases isFirst
      · simp [feed, Tracks, Fed.payload?]
      · simp [feed, Tracks, Fed.payload?]
  | @closing buffer items =>
      rcases received with isFirst | rfl | ⟨_, _, ⟨⟩, rfl⟩
      · cases isFirst
      · simp [feed, Tracks, Fed.payload?]
      · obtain ⟨payload, finishes, holds⟩ := isValid _ _ rfl
        cases finishes
        simpa [feed, Tracks, Fed.payload?] using holds

end Kmwarp.Foundation
