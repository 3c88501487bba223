import Kmwarp.Foundation.Interaction
import Mathlib.Logic.Relation

/-!
# Two programs over FIFO channels

Each of two programs has the messages of the other in its inbox, in the order
sent.  An operation is answered at once, sends a message, or waits for one.  A
step is one operation of either program, so a statement about all steps is one
about all interleavings.
-/

namespace Kmwarp.Foundation

/-! ## Inevitability -/

section Inevitable

universe u

variable {σ : Type u} {step : σ → σ → Prop} {goal : σ → Prop}

/-- Whichever steps are taken, a goal is reached, and until then there is a step
to take. -/
inductive Inevitable (step : σ → σ → Prop) (goal : σ → Prop) : σ → Prop where
  | now {state : σ} (reached : goal state) : Inevitable step goal state
  | later {state : σ} (enabled : ∃ next, step state next)
      (always : ∀ next, step state next → Inevitable step goal next) :
      Inevitable step goal state

/-- Two different steps can be taken in either order. -/
def Diamond (step : σ → σ → Prop) : Prop :=
  ∀ {state one other : σ}, step state one → step state other →
    one = other ∨ ∃ both, step one both ∧ step other both

/-- The induction is on why the goal is inevitable behind the first step: behind
both steps it still is. -/
theorem Inevitable.sibling {one : σ} (inevitable : Inevitable step goal one)
    (diamond : Diamond step) (final : ∀ state, goal state → ∀ next, ¬ step state next)
    {state other : σ} (toOne : step state one) (toOther : step state other) :
    Inevitable step goal other := by
  induction inevitable generalizing state other with
  | now reached =>
      rcases diamond toOne toOther with rfl | ⟨both, beyond, _⟩
      · exact .now reached
      · exact absurd beyond (final _ reached both)
  | later enabled always ih =>
      rcases diamond toOne toOther with rfl | ⟨both, fromOne, fromOther⟩
      · exact .later enabled always
      · exact .later ⟨both, fromOther⟩ fun _ next => ih both fromOne fromOther next

/-- If steps commute and goals are final, one run that reaches a goal is enough. -/
theorem inevitable_of_run (diamond : Diamond step)
    (final : ∀ state, goal state → ∀ next, ¬ step state next) {start reached : σ}
    (run : Relation.ReflTransGen step start reached) (isGoal : goal reached) :
    Inevitable step goal start := by
  induction run using Relation.ReflTransGen.head_induction_on with
  | refl => exact .now isGoal
  | head first _ ih =>
      exact .later ⟨_, first⟩ fun _ other => ih.sibling diamond final first other

end Inevitable

/-! ## Parties -/

open Interaction

variable {Msg : Type}

/-- What the environment does for an operation. -/
inductive Service (Msg R : Type) where
  | reply (result : R)
  | send (msg : Msg) (result : R)
  | receive (onMsg : Msg → R) (onClosed : R)

/-- How a service comes out: the reply, what is taken from the inbox, and what
is sent. -/
inductive Outcome {R : Type} (closed : Prop) :
    Service Msg R → R → List Msg → List Msg → Prop where
  | reply {result : R} : Outcome closed (.reply result) result [] []
  | send {msg : Msg} {result : R} : Outcome closed (.send msg result) result [] [msg]
  | receive {onMsg : Msg → R} {onClosed : R} {msg : Msg} :
      Outcome closed (.receive onMsg onClosed) (onMsg msg) [msg] []
  | hangUp {onMsg : Msg → R} {onClosed : R} (isClosed : closed) :
      Outcome closed (.receive onMsg onClosed) onClosed [] []

theorem Outcome.mono {R : Type} {closed wider : Prop} {service : Service Msg R} {reply : R}
    {taken given : List Msg} (outcome : Outcome closed service reply taken given)
    (widens : closed → wider) : Outcome wider service reply taken given := by
  cases outcome with
  | reply => exact .reply
  | send => exact .send
  | receive => exact .receive
  | hangUp isClosed => exact .hangUp (widens isClosed)

/-- The inbox decides how a service comes out. -/
theorem Outcome.unique {R : Type} {closed : Prop} {service : Service Msg R}
    {one other : R} {taken given inbox otherTaken otherGiven otherInbox : List Msg}
    (first : Outcome (closed ∧ inbox = []) service one taken given)
    (second : Outcome (closed ∧ otherInbox = []) service other otherTaken otherGiven)
    (same : taken ++ inbox = otherTaken ++ otherInbox) :
    one = other ∧ given = otherGiven ∧ inbox = otherInbox := by
  cases first with
  | reply | send =>
      cases second
      exact ⟨rfl, rfl, same⟩
  | receive =>
      cases second with
      | receive =>
          cases same
          exact ⟨rfl, rfl, rfl⟩
      | hangUp ends => simp [ends.2] at same
  | hangUp ends =>
      cases second with
      | receive => simp [ends.2] at same
      | hangUp => exact ⟨rfl, rfl, same⟩

/-- One end of the connection: its operations with the services it may get, and
the results with which it hangs up.  Events record what was sent and
received. -/
structure Party (Msg : Type) where
  Op : Type
  Reply : Op → Type
  Result : Type
  serves : (op : Op) → Service Msg (Reply op) → Prop
  hangsUp : Result → Prop
  received : Event Reply → List Msg
  sent : Event Reply → List Msg
  records : ∀ {op : Op} {service : Service Msg (Reply op)} {reply : Reply op}
    {taken given : List Msg}, serves op service → Outcome True service reply taken given →
      received ⟨op, reply⟩ = taken ∧ sent ⟨op, reply⟩ = given

namespace Party

variable (party : Party Msg)

/-- The event can happen while the connection is open. -/
def Performs (event : Event party.Reply) : Prop :=
  ∃ service, party.serves event.1 service ∧
    Outcome False service event.2 (party.received event) (party.sent event)

/-- The event can happen. -/
def Possible (event : Event party.Reply) : Prop :=
  ∃ service taken given, party.serves event.1 service ∧
    Outcome True service event.2 taken given

/-- The operation waits for a message. -/
def Receives (op : party.Op) : Prop :=
  ∃ onMsg onClosed, party.serves op (.receive onMsg onClosed)

/-- Every operation has at most one service. -/
def Functional : Prop :=
  ∀ {op : party.Op} {one other : Service Msg (party.Reply op)},
    party.serves op one → party.serves op other → one = other

end Party

/-- How many messages a program has sent and received. -/
structure Tally where
  sent : Nat := 0
  received : Nat := 0
deriving DecidableEq

/-- Follows the tally of a program. -/
def Party.tally (party : Party Msg) (allowed : Tally → party.Op → Prop) :
    Monitor party.Reply Tally where
  possible := party.Possible
  advance tally event :=
    ⟨tally.sent + (party.sent event).length, tally.received + (party.received event).length⟩
  allowed := allowed

/-- A party in a run: what is left of its program, the messages that have not
been received yet, and what has happened. -/
structure Side (party : Party Msg) where
  program : Interaction party.Reply party.Result
  inbox : List Msg
  events : List (Event party.Reply)

namespace Side

variable {party : Party Msg}

def start (program : Interaction party.Reply party.Result) : Side party where
  program := program
  inbox := []
  events := []

/-- The party has hung up. -/
def Closed (side : Side party) : Prop :=
  ∃ result, side.program = .done result ∧ party.hangsUp result

def deliver (side : Side party) (msgs : List Msg) : Side party :=
  { side with inbox := side.inbox ++ msgs }

/-- One operation of a side, and what it sends.  The end of the connection is
seen when everything before it has been received. -/
inductive Advances (closed : Prop) (side : Side party) (given : List Msg)
    (next : Side party) : Prop where
  | act {op : party.Op} {rest : party.Reply op → Interaction party.Reply party.Result}
      {service : Service Msg (party.Reply op)} {reply : party.Reply op} {taken : List Msg}
      (asks : side.program = .ask op rest) (served : party.serves op service)
      (outcome : Outcome (closed ∧ next.inbox = []) service reply taken given)
      (takes : side.inbox = taken ++ next.inbox) (goesOn : next.program = rest reply)
      (recorded : next.events = side.events ++ [⟨op, reply⟩])

variable {side next : Side party} {closed : Prop} {given : List Msg}

/-- A party that goes on has not hung up. -/
theorem Advances.not_closed (advances : side.Advances closed given next) :
    ¬ side.Closed := by
  rintro ⟨result, ends, _⟩
  cases advances with
  | act asks =>
      rw [asks] at ends
      cases ends

/-- On an open connection, a side goes on in the same way when more has
arrived. -/
theorem Advances.deliver (advances : side.Advances closed given next)
    (isOpen : ¬ closed) (msgs : List Msg) (later : Prop) :
    (side.deliver msgs).Advances later given (next.deliver msgs) := by
  cases advances with
  | act asks served outcome takes goesOn recorded =>
      refine .act asks served (outcome.mono fun ends => absurd ends.1 isOpen) ?_ goesOn
        recorded
      rw [Side.deliver, Side.deliver, takes, List.append_assoc]

/-- What a side does next is determined by its services and its inbox. -/
theorem Advances.unique (functional : party.Functional) {other : Side party}
    {otherGiven : List Msg} (one : side.Advances closed given next)
    (two : side.Advances closed otherGiven other) : given = otherGiven ∧ next = other := by
  obtain ⟨program, inbox, events⟩ := next
  obtain ⟨otherProgram, otherInbox, otherEvents⟩ := other
  cases one with
  | act asks served outcome takes goesOn recorded =>
      cases two with
      | act asksToo servedToo outcomeToo takesToo goesOnToo recordedToo =>
          rw [asks] at asksToo
          cases asksToo
          cases functional served servedToo
          obtain ⟨rfl, rfl, sameInbox⟩ :=
            outcome.unique outcomeToo (takes.symm.trans takesToo)
          simp only at goesOn goesOnToo recorded recordedToo sameInbox
          subst goesOn goesOnToo recorded recordedToo sameInbox
          exact ⟨rfl, rfl⟩

/-- What has happened is a trace of the program, and what has arrived was received
in order or is in the inbox. -/
structure Sound (program : Interaction party.Reply party.Result) (side : Side party)
    (arrived : List Msg) : Prop where
  trace : Trace program side.events side.program
  possible : ∀ event ∈ side.events, party.Possible event
  fifo : arrived = side.events.flatMap party.received ++ side.inbox

variable {program : Interaction party.Reply party.Result} {arrived : List Msg}

theorem sound_start (program : Interaction party.Reply party.Result) :
    Sound program (start program) [] where
  trace := .here program
  possible _ member := by cases member
  fifo := rfl

theorem Sound.deliver (sound : Sound program side arrived) (msgs : List Msg) :
    Sound program (side.deliver msgs) (arrived ++ msgs) :=
  { sound with fifo := by rw [sound.fifo, List.append_assoc, Side.deliver] }

theorem Sound.advance (sound : Sound program side arrived)
    (advances : side.Advances closed given next) :
    Sound program next arrived ∧
      next.events.flatMap party.sent = side.events.flatMap party.sent ++ given := by
  cases advances with
  | @act op rest service reply taken asks served outcome takes goesOn recorded =>
      have whenever := outcome.mono fun _ => trivial
      obtain ⟨received, sent⟩ := party.records served whenever
      refine ⟨⟨?_, ?_, ?_⟩, ?_⟩
      · rw [recorded, goesOn]
        have trace := sound.trace
        rw [asks] at trace
        exact trace.concat reply
      · intro event member
        rw [recorded] at member
        rcases List.mem_append.mp member with earlier | last
        · exact sound.possible event earlier
        · rw [List.mem_singleton.mp last]
          exact ⟨service, taken, given, served, whenever⟩
      · rw [sound.fifo, takes, recorded]
        simp [received]
      · rw [recorded]
        simp [sent]

def tally (side : Side party) : Tally :=
  ⟨(side.events.flatMap party.sent).length, (side.events.flatMap party.received).length⟩

theorem foldl_tally {allowed : Tally → party.Op → Prop} (events : List (Event party.Reply))
    (before : Tally) :
    events.foldl (party.tally allowed).advance before =
      ⟨before.sent + (events.flatMap party.sent).length,
        before.received + (events.flatMap party.received).length⟩ := by
  induction events generalizing before with
  | nil => rfl
  | cons event events ih =>
      rw [List.foldl_cons, ih]
      simp [Party.tally, Nat.add_assoc]

theorem Sound.keeps {allowed : Tally → party.Op → Prop}
    {post : Tally → party.Result → Prop} (sound : Sound program side arrived)
    (keeps : program.Keeps (party.tally allowed) post {}) :
    side.program.Keeps (party.tally allowed) post side.tally := by
  have rest := keeps.of_trace sound.trace sound.possible
  rw [foldl_tally, Nat.zero_add, Nat.zero_add] at rest
  exact rest

/-- The side waits for a message that has not been sent. -/
def Waits (side : Side party) : Prop :=
  side.inbox = [] ∧ ∃ op rest, side.program = .ask op rest ∧ party.Receives op

end Side

/-! ## The two sides together -/

structure Duplex (first second : Party Msg) where
  left : Side first
  right : Side second

namespace Duplex

variable {first second : Party Msg} {system next : Duplex first second}
  {program : Interaction first.Reply first.Result}
  {other : Interaction second.Reply second.Result}

def start (program : Interaction first.Reply first.Result)
    (other : Interaction second.Reply second.Result) : Duplex first second where
  left := .start program
  right := .start other

/-- One operation of one side; what it sends is delivered to the other. -/
inductive Step (system next : Duplex first second) : Prop where
  | left {given : List Msg}
      (advances : system.left.Advances system.right.Closed given next.left)
      (delivered : next.right = system.right.deliver given)
  | right {given : List Msg}
      (advances : system.right.Advances system.left.Closed given next.right)
      (delivered : next.left = system.left.deliver given)

abbrev Reaches : Duplex first second → Duplex first second → Prop :=
  Relation.ReflTransGen Step

/-- The sides do not get in each other's way. -/
theorem diamond (leftFunctional : first.Functional) (rightFunctional : second.Functional) :
    Diamond (@Step Msg first second) := by
  rintro state ⟨left, right⟩ ⟨otherLeft, otherRight⟩ one two
  cases one with
  | @left given advances delivered =>
      cases two with
      | left advancesToo deliveredToo =>
          obtain ⟨rfl, same⟩ := advances.unique leftFunctional advancesToo
          simp only at same delivered deliveredToo
          subst same delivered deliveredToo
          exact .inl rfl
      | @right otherGiven advancesToo deliveredToo =>
          simp only at advances advancesToo delivered deliveredToo
          subst delivered deliveredToo
          refine .inr ⟨⟨left.deliver otherGiven, otherRight.deliver given⟩, ?_, ?_⟩
          · exact .right (advancesToo.deliver advances.not_closed given _) rfl
          · exact .left (advances.deliver advancesToo.not_closed otherGiven _) rfl
  | @right given advances delivered =>
      cases two with
      | right advancesToo deliveredToo =>
          obtain ⟨rfl, same⟩ := advances.unique rightFunctional advancesToo
          simp only at same delivered deliveredToo
          subst same delivered deliveredToo
          exact .inl rfl
      | @left otherGiven advancesToo deliveredToo =>
          simp only at advances advancesToo delivered deliveredToo
          subst delivered deliveredToo
          refine .inr ⟨⟨otherLeft.deliver given, right.deliver otherGiven⟩, ?_, ?_⟩
          · exact .left (advancesToo.deliver advances.not_closed given _) rfl
          · exact .right (advances.deliver advancesToo.not_closed otherGiven _) rfl

/-- Both sides are sound about what the other has sent. -/
def Sound (program : Interaction first.Reply first.Result)
    (other : Interaction second.Reply second.Result) (system : Duplex first second) : Prop :=
  system.left.Sound program (system.right.events.flatMap second.sent) ∧
    system.right.Sound other (system.left.events.flatMap first.sent)

theorem Sound.step (sound : Sound program other system) (step : Step system next) :
    Sound program other next := by
  obtain ⟨soundLeft, soundRight⟩ := sound
  cases step with
  | @left given advances delivered =>
      obtain ⟨soundNext, sent⟩ := soundLeft.advance advances
      rw [Sound, delivered, sent]
      exact ⟨soundNext, soundRight.deliver given⟩
  | @right given advances delivered =>
      obtain ⟨soundNext, sent⟩ := soundRight.advance advances
      rw [Sound, delivered, sent]
      exact ⟨soundLeft.deliver given, soundNext⟩

theorem sound_of_reaches (reaches : Reaches (start program other) system) :
    Sound program other system := by
  induction reaches with
  | refl => exact ⟨Side.sound_start program, Side.sound_start other⟩
  | tail _ step ih => exact ih.step step

/-- Where both programs have ended, so has the run. -/
theorem not_step_of_done {result : first.Result} {otherResult : second.Result}
    (leftDone : system.left.program = .done result)
    (rightDone : system.right.program = .done otherResult) : ¬ Step system next := by
  intro step
  cases step with
  | left advances =>
      cases advances with
      | act asks =>
          rw [leftDone] at asks
          cases asks
  | right advances =>
      cases advances with
      | act asks =>
          rw [rightDone] at asks
          cases asks

/-! ## Running one side -/

/-- A side can go through events that need no end of the connection when what
they receive has arrived. -/
theorem reaches_left {events : List (Event first.Reply)}
    {rest : Interaction first.Reply first.Result} {inbox : List Msg}
    (trace : Trace system.left.program events rest)
    (performs : ∀ event ∈ events, first.Performs event)
    (arrived : system.left.inbox = events.flatMap first.received ++ inbox) :
    Reaches system ⟨⟨rest, inbox, system.left.events ++ events⟩,
      system.right.deliver (events.flatMap first.sent)⟩ := by
  obtain ⟨⟨program, box, history⟩, right⟩ := system
  simp only at trace arrived ⊢
  induction trace generalizing box history right with
  | here program =>
      simp only [List.flatMap_nil, List.nil_append] at arrived
      subst arrived
      simp only [List.append_nil, List.flatMap_nil, Side.deliver]
      exact .refl
  | @step op next reply events rest later ih =>
      obtain ⟨service, served, outcome⟩ := performs _ List.mem_cons_self
      rw [List.flatMap_cons, List.append_assoc] at arrived
      have step : Step ⟨⟨.ask op next, box, history⟩, right⟩
          ⟨⟨next reply, events.flatMap first.received ++ inbox, history ++ [⟨op, reply⟩]⟩,
            right.deliver (first.sent ⟨op, reply⟩)⟩ :=
        .left (.act rfl served (outcome.mono False.elim) arrived rfl rfl) rfl
      have onward := ih (fun event member => performs event (List.mem_cons_of_mem _ member))
        (right.deliver (first.sent ⟨op, reply⟩)) _ (history ++ [⟨op, reply⟩]) rfl
      simp only [List.append_assoc, List.singleton_append, Side.deliver] at onward
      rw [List.flatMap_cons, Side.deliver]
      exact .head step onward

def swap (system : Duplex first second) : Duplex second first :=
  ⟨system.right, system.left⟩

theorem Step.swap (step : Step system next) : Step system.swap next.swap := by
  cases step with
  | left advances delivered => exact .right advances delivered
  | right advances delivered => exact .left advances delivered

theorem Reaches.swap (reaches : Reaches system next) : Reaches system.swap next.swap := by
  induction reaches with
  | refl => exact .refl
  | tail _ step ih => exact .tail ih step.swap

theorem reaches_right {events : List (Event second.Reply)}
    {rest : Interaction second.Reply second.Result} {inbox : List Msg}
    (trace : Trace system.right.program events rest)
    (performs : ∀ event ∈ events, second.Performs event)
    (arrived : system.right.inbox = events.flatMap second.received ++ inbox) :
    Reaches system ⟨system.left.deliver (events.flatMap second.sent),
      ⟨rest, inbox, system.right.events ++ events⟩⟩ :=
  (@reaches_left _ _ _ system.swap _ _ _ trace performs arrived).swap

/-- A run in five turns, the left side's first: in each turn a side receives what
the other has sent in its last turn.  What is sent last may be left unread. -/
theorem reaches_in_turns {first₁ first₂ first₃ : List (Event first.Reply)}
    {second₁ second₂ : List (Event second.Reply)}
    {rest : Interaction first.Reply first.Result}
    {otherRest : Interaction second.Reply second.Result} {unread otherUnread : List Msg}
    (leftTrace : Trace program (first₁ ++ (first₂ ++ first₃)) rest)
    (rightTrace : Trace other (second₁ ++ second₂) otherRest)
    (leftPerforms : ∀ event ∈ first₁ ++ (first₂ ++ first₃), first.Performs event)
    (rightPerforms : ∀ event ∈ second₁ ++ second₂, second.Performs event)
    (turn₁ : first₁.flatMap first.received = [])
    (turn₂ : second₁.flatMap second.received = first₁.flatMap first.sent)
    (turn₃ : first₂.flatMap first.received = second₁.flatMap second.sent)
    (turn₄ : second₂.flatMap second.received ++ otherUnread = first₂.flatMap first.sent)
    (turn₅ : first₃.flatMap first.received ++ unread = second₂.flatMap second.sent)
    (quiet : first₃.flatMap first.sent = []) :
    Reaches (start program other)
      ⟨⟨rest, unread, first₁ ++ (first₂ ++ first₃)⟩,
        ⟨otherRest, otherUnread, second₁ ++ second₂⟩⟩ := by
  obtain ⟨program₁, left₁, leftRest⟩ := trace_append leftTrace
  obtain ⟨program₂, left₂, left₃⟩ := trace_append leftRest
  obtain ⟨other₁, right₁, right₂⟩ := trace_append rightTrace
  simp only [List.mem_append, or_imp, forall_and] at leftPerforms rightPerforms
  obtain ⟨performs₁, performs₂, performs₃⟩ := leftPerforms
  obtain ⟨otherPerforms₁, otherPerforms₂⟩ := rightPerforms
  have one := @reaches_left _ _ _ (start program other) _ _ [] left₁ performs₁
    (by rw [turn₁]; rfl)
  have two := @reaches_right _ _ _ ⟨⟨program₁, [], first₁⟩,
      (Side.start other).deliver (first₁.flatMap first.sent)⟩ _ _ [] right₁ otherPerforms₁
    (by rw [turn₂, List.append_nil]; rfl)
  have three := @reaches_left _ _ _ ⟨⟨program₁, second₁.flatMap second.sent, first₁⟩,
      ⟨other₁, [], second₁⟩⟩ _ _ [] left₂ performs₂ (by rw [turn₃, List.append_nil])
  have four := @reaches_right _ _ _
    ⟨⟨program₂, [], first₁ ++ first₂⟩, ⟨other₁, first₂.flatMap first.sent, second₁⟩⟩ _ _
    otherUnread right₂ otherPerforms₂ turn₄.symm
  have five := @reaches_left _ _ _
    ⟨⟨program₂, second₂.flatMap second.sent, first₁ ++ first₂⟩,
      ⟨otherRest, otherUnread, second₁ ++ second₂⟩⟩ _ _
    unread left₃ performs₃ turn₅.symm
  rw [quiet, List.append_assoc, Side.deliver, List.append_nil] at five
  exact (((one.trans two).trans three).trans four).trans five

/-! ## Deadlock -/

/-- Both sides wait and nothing is in flight. -/
def Deadlocked (system : Duplex first second) : Prop :=
  system.left.Waits ∧ system.right.Waits

def NeverDeadlocks (system : Duplex first second) : Prop :=
  ∀ next, Reaches system next → ¬ Deadlocked next

/-- In a deadlock everything sent was received, so programs that keep to
incompatible tallies when they wait never get into one. -/
theorem neverDeadlocks {leftAllowed : Tally → first.Op → Prop}
    {rightAllowed : Tally → second.Op → Prop}
    {leftPost : Tally → first.Result → Prop} {rightPost : Tally → second.Result → Prop}
    (leftKeeps : program.Keeps (first.tally leftAllowed) leftPost {})
    (rightKeeps : other.Keeps (second.tally rightAllowed) rightPost {})
    (incompatible : ∀ tally leftOp rightOp, first.Receives leftOp → second.Receives rightOp →
      leftAllowed tally leftOp → ¬ rightAllowed ⟨tally.received, tally.sent⟩ rightOp) :
    (start program other).NeverDeadlocks := by
  rintro system reaches ⟨⟨leftEmpty, leftOp, _, leftAsks, leftReceives⟩,
    ⟨rightEmpty, rightOp, _, rightAsks, rightReceives⟩⟩
  obtain ⟨leftSound, rightSound⟩ := sound_of_reaches reaches
  have leftRest := leftSound.keeps leftKeeps
  have rightRest := rightSound.keeps rightKeeps
  rw [leftAsks] at leftRest
  rw [rightAsks] at rightRest
  have toLeft := leftSound.fifo
  have toRight := rightSound.fifo
  rw [leftEmpty, List.append_nil] at toLeft
  rw [rightEmpty, List.append_nil] at toRight
  have crossed : system.right.tally = ⟨system.left.tally.received, system.left.tally.sent⟩ := by
    rw [Side.tally, Side.tally, toLeft, toRight]
  apply incompatible _ _ _ leftReceives rightReceives leftRest.1
  rw [← crossed]
  exact rightRest.1

end Duplex

end Kmwarp.Foundation
