import Mathlib.Data.List.Basic

/-!
# Interactions

A program performs operations of its environment and goes on with their
replies.  Nothing is assumed about the replies, so a statement about all traces
of a program holds against every environment.
-/

namespace Kmwarp.Foundation

universe u v w

/-- A program has its result, or asks for an operation. -/
inductive Interaction {Op : Type u} (Reply : Op → Type v) (α : Type w) where
  | done (result : α)
  | ask (op : Op) (next : Reply op → Interaction Reply α)

/-- An operation and the reply to it. -/
abbrev Event {Op : Type u} (Reply : Op → Type v) : Type (max u v) :=
  Σ op, Reply op

variable {Op : Type u} {Reply : Op → Type v} {α β ε : Type w}

namespace Interaction

def bind : Interaction Reply α → (α → Interaction Reply β) → Interaction Reply β
  | .done result, next => next result
  | .ask op rest, next => .ask op fun reply => (rest reply).bind next

instance : Monad (Interaction Reply) where
  pure := .done
  bind := bind

/-- The program that performs one operation. -/
def perform (op : Op) : Interaction Reply (Reply op) :=
  .ask op .done

/-- The program goes through these events and then stands at `rest`. -/
inductive Trace : Interaction Reply α → List (Event Reply) → Interaction Reply α → Prop
    where
  | here (program : Interaction Reply α) : Trace program [] program
  | step {op : Op} {next : Reply op → Interaction Reply α} {reply : Reply op}
      {events : List (Event Reply)} {rest : Interaction Reply α}
      (later : Trace (next reply) events rest) :
      Trace (.ask op next) (⟨op, reply⟩ :: events) rest

def pending : Interaction Reply α → List Op
  | .done _ => []
  | .ask op _ => [op]

/-- The operations asked for so far, the one without a reply included. -/
def calls (events : List (Event Reply)) (rest : Interaction Reply α) : List Op :=
  events.map Sigma.fst ++ rest.pending

/-- Every operation the program can ask for is allowed. -/
def Within (allowed : Op → Prop) : Interaction Reply α → Prop
  | .done _ => True
  | .ask op next => allowed op ∧ ∀ reply, (next reply).Within allowed

variable {program rest : Interaction Reply α} {events : List (Event Reply)}

theorem trace_done {result : α} (trace : Trace (.done result) events rest) :
    events = [] ∧ rest = .done result := by
  cases trace
  exact ⟨rfl, rfl⟩

/-- A trace of a sequence stops in its first program, or goes on with the
second. -/
theorem trace_bind {program : Interaction Reply α} {next : α → Interaction Reply β}
    {rest : Interaction Reply β} (trace : Trace (program >>= next) events rest) :
    (∃ op later, Trace program events (.ask op later) ∧
      rest = .ask op fun reply => later reply >>= next) ∨
      ∃ result before after, events = before ++ after ∧
        Trace program before (.done result) ∧ Trace (next result) after rest := by
  induction program generalizing events with
  | done result => exact .inr ⟨result, [], events, rfl, .here _, trace⟩
  | ask op later ih =>
      cases trace with
      | here => exact .inl ⟨op, later, .here _, rfl⟩
      | @step _ _ reply _ _ trace =>
          rcases ih reply trace with ⟨stoppedOp, rest, stopped, same⟩ |
            ⟨result, before, after, split, finished, followed⟩
          · exact .inl ⟨stoppedOp, rest, .step stopped, same⟩
          · exact .inr ⟨result, ⟨op, reply⟩ :: before, after,
              congrArg (_ :: ·) split, .step finished, followed⟩

/-- The same for programs that can fail. -/
theorem trace_exceptBind {program : ExceptT ε (Interaction Reply) α}
    {next : α → ExceptT ε (Interaction Reply) β} {rest : Interaction Reply (Except ε β)}
    (trace : Trace (program >>= next).run events rest) :
    (∃ op later after, Trace program.run events (.ask op later) ∧ rest = .ask op after) ∨
      (∃ error, Trace program.run events (.done (.error error)) ∧
        rest = .done (.error error)) ∨
        ∃ result before after, events = before ++ after ∧
          Trace program.run before (.done (.ok result)) ∧
            Trace (next result).run after rest := by
  rcases trace_bind trace with ⟨op, later, stopped, same⟩ |
    ⟨result, before, after, split, finished, followed⟩
  · exact .inl ⟨op, later, _, stopped, same⟩
  · cases result with
    | error error =>
        obtain ⟨rfl, same⟩ := trace_done followed
        rw [List.append_nil] at split
        exact .inr (.inl ⟨error, split ▸ finished, same⟩)
    | ok result => exact .inr (.inr ⟨result, before, after, split, finished, followed⟩)

/-- A successful sequence has two successful parts. -/
theorem trace_exceptBind_ok {program : ExceptT ε (Interaction Reply) α}
    {next : α → ExceptT ε (Interaction Reply) β} {result : β}
    (trace : Trace (program >>= next).run events (.done (.ok result))) :
    ∃ middle before after, events = before ++ after ∧
      Trace program.run before (.done (.ok middle)) ∧
        Trace (next middle).run after (.done (.ok result)) := by
  rcases trace_exceptBind trace with ⟨op, _, _, _, pending⟩ | ⟨error, _, failed⟩ |
    succeeded
  · cases pending
  · cases failed
  · exact succeeded

/-- A lifted program only changes its result. -/
theorem trace_lift_ok {program : Interaction Reply α} {result : α}
    (trace : Trace (ExceptT.lift program : ExceptT ε (Interaction Reply) α).run events
      (.done (.ok result))) : Trace program events (.done result) := by
  rcases trace_bind trace with ⟨op, _, _, pending⟩ | ⟨_, _, _, rfl, finished, returned⟩
  · cases pending
  · cases returned
    rw [List.append_nil]
    exact finished

/-! ## Allowed operations -/

theorem within_bind {allowed : Op → Prop} {program : Interaction Reply α}
    {next : α → Interaction Reply β} (first : program.Within allowed)
    (second : ∀ result, (next result).Within allowed) :
    (program >>= next).Within allowed := by
  induction program with
  | done result => exact second result
  | ask op later ih => exact ⟨first.1, fun reply => ih reply (first.2 reply)⟩

theorem within_exceptBind {allowed : Op → Prop}
    {program : ExceptT ε (Interaction Reply) α}
    {next : α → ExceptT ε (Interaction Reply) β} (first : program.run.Within allowed)
    (second : ∀ result, (next result).run.Within allowed) :
    (program >>= next).run.Within allowed := by
  refine within_bind first fun result => ?_
  cases result with
  | error error => trivial
  | ok result => exact second result

theorem within_mono {allowed wider : Op → Prop} {program : Interaction Reply α}
    (widens : ∀ op, allowed op → wider op) (within : program.Within allowed) :
    program.Within wider := by
  induction program with
  | done result => trivial
  | ask op next ih => exact ⟨widens op within.1, fun reply => ih reply (within.2 reply)⟩

/-- Only allowed operations are asked for in a trace. -/
theorem allowed_of_within {allowed : Op → Prop} (within : program.Within allowed)
    (trace : Trace program events rest) : ∀ op ∈ calls events rest, allowed op := by
  induction trace with
  | here program =>
      intro op asked
      cases program with
      | done result => cases asked
      | ask first next =>
          rw [List.mem_singleton.mp asked]
          exact within.1
  | @step op next reply events rest later ih =>
      intro asked member
      rcases List.mem_cons.mp member with rfl | member
      · exact within.1
      · exact ih (within.2 reply) asked member

theorem mem_calls {event : Event Reply} (member : event ∈ events) :
    event.1 ∈ calls events rest :=
  List.mem_append_left _ (List.mem_map_of_mem member)

theorem allowed_of_mem {allowed : Op → Prop} (within : program.Within allowed)
    (trace : Trace program events rest) {event : Event Reply} (member : event ∈ events) :
    allowed event.1 :=
  allowed_of_within within trace event.1 (mem_calls member)

theorem calls_append (before after : List (Event Reply)) :
    calls (before ++ after) rest = before.map Sigma.fst ++ calls after rest := by
  simp [calls]

/-! ## Composing traces -/

theorem Trace.append {middle : Interaction Reply α} {before after : List (Event Reply)}
    (first : Trace program before middle) (second : Trace middle after rest) :
    Trace program (before ++ after) rest := by
  induction first with
  | here => exact second
  | step _ ih => exact .step (ih second)

theorem Trace.concat {op : Op} {next : Reply op → Interaction Reply α}
    (trace : Trace program events (.ask op next)) (reply : Reply op) :
    Trace program (events ++ [⟨op, reply⟩]) (next reply) :=
  trace.append (.step (.here _))

/-- A trace passes through the program behind each of its parts. -/
theorem trace_append {before after : List (Event Reply)}
    (trace : Trace program (before ++ after) rest) :
    ∃ middle, Trace program before middle ∧ Trace middle after rest := by
  induction before generalizing program with
  | nil => exact ⟨program, .here _, trace⟩
  | cons event before ih =>
      cases trace with
      | step later =>
          obtain ⟨middle, first, second⟩ := ih later
          exact ⟨middle, .step first, second⟩

theorem Trace.bind {first : Interaction Reply α} {next : α → Interaction Reply β}
    {result : α} {before after : List (Event Reply)} {rest : Interaction Reply β}
    (finished : Trace first before (.done result)) (followed : Trace (next result) after rest) :
    Trace (first >>= next) (before ++ after) rest := by
  induction first generalizing before with
  | done other =>
      obtain ⟨rfl, same⟩ := trace_done finished
      cases same
      exact followed
  | ask op later ih =>
      cases finished with
      | step tail => exact .step (ih _ tail)

/-- A trace that stops in the first program is one of the sequence. -/
theorem Trace.bind_ask {first : Interaction Reply α} {next : α → Interaction Reply β}
    {op : Op} {later : Reply op → Interaction Reply α}
    (trace : Trace first events (.ask op later)) :
    Trace (first >>= next) events (.ask op fun reply => later reply >>= next) := by
  induction first generalizing events with
  | done other =>
      obtain ⟨_, same⟩ := trace_done trace
      cases same
  | ask first later ih =>
      cases trace with
      | here => exact .here _
      | step tail => exact .step (ih _ tail)

theorem Trace.exceptBind {first : ExceptT ε (Interaction Reply) α}
    {next : α → ExceptT ε (Interaction Reply) β} {result : α}
    {before after : List (Event Reply)} {rest : Interaction Reply (Except ε β)}
    (finished : Trace first.run before (.done (.ok result)))
    (followed : Trace (next result).run after rest) :
    Trace (first >>= next).run (before ++ after) rest :=
  finished.bind followed

theorem Trace.exceptBind_error {first : ExceptT ε (Interaction Reply) α}
    {next : α → ExceptT ε (Interaction Reply) β} {error : ε}
    {before : List (Event Reply)}
    (failed : Trace first.run before (.done (.error error))) :
    Trace (first >>= next).run before (.done (.error error)) := by
  have all : Trace (first >>= next).run (before ++ []) (.done (.error error)) :=
    failed.bind (.here _)
  rwa [List.append_nil] at all

/-! ## Monitored programs -/

/-- A state that follows the events of a program, the events to expect, and the
operations that may be asked for in a state. -/
structure Monitor (Reply : Op → Type v) (σ : Type u) where
  possible : Event Reply → Prop
  advance : σ → Event Reply → σ
  allowed : σ → Op → Prop

section Monitor

variable {σ : Type u} {monitor : Monitor Reply σ} {state : σ}

/-- Whatever possible replies it gets, the program asks only for what is allowed,
and its result satisfies the postcondition. -/
def Keeps (monitor : Monitor Reply σ) (post : σ → α → Prop) :
    σ → Interaction Reply α → Prop
  | state, .done result => post state result
  | state, .ask op next =>
      monitor.allowed state op ∧ ∀ reply, monitor.possible ⟨op, reply⟩ →
        (next reply).Keeps monitor post (monitor.advance state ⟨op, reply⟩)

theorem keeps_bind {program : Interaction Reply α} {next : α → Interaction Reply β}
    {post : σ → β → Prop}
    (first : program.Keeps monitor (fun state result =>
      (next result).Keeps monitor post state) state) :
    (program >>= next).Keeps monitor post state := by
  induction program generalizing state with
  | done result => exact first
  | ask op later ih =>
      exact ⟨first.1, fun reply possible => ih reply (first.2 reply possible)⟩

theorem keeps_mono {post weaker : σ → α → Prop} {program : Interaction Reply α}
    (weaken : ∀ state result, post state result → weaker state result)
    (keeps : program.Keeps monitor post state) : program.Keeps monitor weaker state := by
  induction program generalizing state with
  | done result => exact weaken state result keeps
  | ask op next ih =>
      exact ⟨keeps.1, fun reply possible => ih reply (keeps.2 reply possible)⟩

/-- A postcondition of successful results. -/
def OnSuccess (post : σ → α → Prop) : σ → Except ε α → Prop
  | state, .ok result => post state result
  | _, .error _ => True

theorem keeps_success_mono {post weaker : σ → α → Prop}
    {program : Interaction Reply (Except ε α)}
    (weaken : ∀ state result, post state result → weaker state result)
    (keeps : program.Keeps monitor (OnSuccess post) state) :
    program.Keeps monitor (OnSuccess weaker) state := by
  refine keeps_mono (fun state result holds => ?_) keeps
  cases result with
  | error error => trivial
  | ok result => exact weaken state result holds

theorem keeps_exceptBind {program : ExceptT ε (Interaction Reply) α}
    {next : α → ExceptT ε (Interaction Reply) β} {post : σ → β → Prop}
    (first : program.run.Keeps monitor (OnSuccess fun state result =>
      (next result).run.Keeps monitor (OnSuccess post) state) state) :
    (program >>= next).run.Keeps monitor (OnSuccess post) state := by
  refine keeps_bind (keeps_mono ?_ first)
  intro state result holds
  cases result with
  | error error => trivial
  | ok result => exact holds

theorem keeps_lift {program : Interaction Reply α} {post : σ → α → Prop}
    (keeps : program.Keeps monitor post state) :
    (ExceptT.lift program : ExceptT ε (Interaction Reply) α).run.Keeps monitor
      (OnSuccess post) state :=
  keeps_bind (keeps_mono (fun _ _ holds => holds) keeps)

/-- After possible events, the rest of the program keeps to the monitor. -/
theorem Keeps.of_trace {post : σ → α → Prop} {program rest : Interaction Reply α}
    {events : List (Event Reply)} (keeps : program.Keeps monitor post state)
    (trace : Trace program events rest) (possible : ∀ event ∈ events, monitor.possible event) :
    rest.Keeps monitor post (events.foldl monitor.advance state) := by
  induction trace generalizing state with
  | here => exact keeps
  | step _ ih =>
      have first := possible _ List.mem_cons_self
      exact ih (keeps.2 _ first) fun event member =>
        possible event (List.mem_cons_of_mem _ member)

/-- The same with a postcondition of errors. -/
theorem keeps_exceptBind_result {program : ExceptT ε (Interaction Reply) α}
    {next : α → ExceptT ε (Interaction Reply) β} {post : σ → Except ε β → Prop}
    (first : program.run.Keeps monitor (fun state result =>
      match result with
      | .ok value => (next value).run.Keeps monitor post state
      | .error error => post state (.error error)) state) :
    (program >>= next).run.Keeps monitor post state := by
  refine keeps_bind (keeps_mono (fun state result holds => ?_) first)
  cases result with
  | error error => exact holds
  | ok result => exact holds

/-- A program that only asks for operations which are always allowed and do not
change the state of the monitor leaves that state as it is. -/
theorem keeps_of_within {allowed : Op → Prop} {program : Interaction Reply α}
    (within : program.Within allowed)
    (admits : ∀ op, allowed op → monitor.allowed state op)
    (still : ∀ op reply, allowed op → monitor.advance state ⟨op, reply⟩ = state) :
    program.Keeps monitor (fun final _ => final = state) state := by
  induction program with
  | done result => rfl
  | ask op next ih =>
      refine ⟨admits op within.1, fun reply _ => ?_⟩
      rw [still op reply within.1]
      exact ih reply (within.2 reply)

/-- What the program asks for in a trace was allowed at the time. -/
theorem Keeps.allowed_of_called {post : σ → α → Prop} {program rest : Interaction Reply α}
    {events : List (Event Reply)} (keeps : program.Keeps monitor post state)
    (trace : Trace program events rest) (possible : ∀ event ∈ events, monitor.possible event)
    {op : Op} (called : op ∈ calls events rest) :
    ∃ before after, events = before ++ after ∧
      monitor.allowed (before.foldl monitor.advance state) op := by
  induction trace generalizing state with
  | here program =>
      cases program with
      | done result => cases called
      | ask first next =>
          rw [List.mem_singleton.mp called]
          exact ⟨[], [], rfl, keeps.1⟩
  | @step first next reply events rest later ih =>
      rcases List.mem_cons.mp called with rfl | called
      · exact ⟨[], _, rfl, keeps.1⟩
      · obtain ⟨before, after, rfl, allowed⟩ :=
          ih (keeps.2 reply (possible _ List.mem_cons_self))
            (fun event member => possible event (List.mem_cons_of_mem _ member)) called
        exact ⟨⟨first, reply⟩ :: before, after, rfl, allowed⟩

end Monitor

end Interaction

end Kmwarp.Foundation
