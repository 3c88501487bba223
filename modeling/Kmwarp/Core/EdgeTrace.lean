import Kmwarp.Core.Edge
import Kmwarp.Foundation.Windows

/-!
# Action traces of the edge machine

A run of the machine is a list of calls of its two entry points, each with its
own clock reading.  Every call emits a forwarded message, an enter group, a
leave group, or nothing, and the groups bracket the windows in which messages
are forwarded.
-/

namespace Kmwarp

open Foundation Wire

/-- A call of the machine. -/
inductive EdgeCall where
  | onLocalEvent (event : SourceEvent) (nowMs : Nat)
  | onWireMessage (msg : Message) (nowMs : Nat)

namespace StateMachine

def call (machine : StateMachine) : EdgeCall → StateMachine × List Action
  | .onLocalEvent event nowMs => machine.onLocalEvent event nowMs
  | .onWireMessage msg nowMs => machine.onWireMessage msg nowMs

/-- The machine after a list of calls, and the actions each of them emitted. -/
def run (machine : StateMachine) : List EdgeCall → StateMachine × List (List Action)
  | [] => (machine, [])
  | call :: calls =>
      let (next, actions) := machine.call call
      let (final, outputs) := next.run calls
      (final, actions :: outputs)

end StateMachine

/-- What one call may emit. -/
inductive Emission where
  | nothing
  | message (msg : Message)
  | enter (entryY : UInt16) (x y : Int)
  | leave (x y : Int)
deriving DecidableEq

namespace Emission

def actions : Emission → List Action
  | nothing => []
  | message msg => [.sendMessage msg]
  | enter entryY x y =>
      [.sendTakeControl entryY, .warpLocalCursor x y, .hideLocalCursor, .startSwallow]
  | leave x y => [.stopSwallow, .showLocalCursor, .warpLocalCursor x y]

/-- Groups bracket the window in which messages are forwarded. -/
def role : Emission → WindowRole
  | nothing => .neutral
  | message _ => .inside
  | enter .. => .opens
  | leave .. => .closes

theorem sendReleaseControl_notMem_actions (emission : Emission) (exitY : UInt16) :
    .sendReleaseControl exitY ∉ emission.actions := by
  cases emission <;> simp [actions]

end Emission

namespace StateMachine

/-- Control is with the peer. -/
def isRemote (machine : StateMachine) : Bool :=
  machine.state = .remoteActive

theorem isRemote_iff {machine : StateMachine} :
    machine.isRemote = true ↔ machine.state = .remoteActive := by
  simp [isRemote]

/-- Every call emits one emission, allowed by the state it was made in. -/
theorem call_emits (machine : StateMachine) (call : EdgeCall) :
    ∃ emission : Emission, (machine.call call).2 = emission.actions ∧
      WindowStep emission.role machine.isRemote (machine.call call).1.isRemote := by
  cases call with
  | onLocalEvent event nowMs =>
      rcases machine.onLocalEvent_cases event nowMs with
        ⟨x, y, _, wasLocal, _, _, crossed⟩ | ⟨msg, _, wasRemote, forwarded⟩ | ⟨cursor, kept⟩
      · refine ⟨.enter _ _ _, by rw [call, crossed, Emission.actions], ?_⟩
        simp only [call, crossed, isRemote, wasLocal]
        exact .opens
      · refine ⟨.message msg, by rw [call, forwarded, Emission.actions], ?_⟩
        simp only [call, forwarded, isRemote, wasRemote]
        exact .inside
      · refine ⟨.nothing, by rw [call, kept, Emission.actions], ?_⟩
        simp only [call, kept]
        exact .neutral _
  | onWireMessage msg nowMs =>
      rcases machine.onWireMessage_cases msg nowMs with
        ⟨exitY, _, wasRemote, left⟩ | kept
      · refine ⟨.leave _ _, by rw [call, left, Emission.actions], ?_⟩
        simp only [call, left, isRemote, wasRemote]
        exact .closes
      · refine ⟨.nothing, by rw [call, kept, Emission.actions], ?_⟩
        rw [call, kept]
        exact .neutral _

/-- A run emits a trace that keeps to its windows. -/
theorem run_windowed (machine : StateMachine) (calls : List EdgeCall) :
    ∃ emissions : List Emission,
      (machine.run calls).2 = emissions.map Emission.actions ∧
      Windowed Emission.role machine.isRemote emissions (machine.run calls).1.isRemote := by
  induction calls generalizing machine with
  | nil => exact ⟨[], rfl, .nil _⟩
  | cons call calls ih =>
      obtain ⟨emission, emitted, step⟩ := machine.call_emits call
      obtain ⟨emissions, outputs, rest⟩ := ih (machine.call call).1
      refine ⟨emission :: emissions, ?_, .cons step rest⟩
      rw [run, List.map_cons, ← emitted, ← outputs]

/-- A release received while control is with the peer closes the window,
whatever the time. -/
theorem onWireMessage_releaseControl {machine : StateMachine}
    (wasRemote : machine.state = .remoteActive) (exitY : UInt16) (nowMs : Nat) :
    (machine.onWireMessage (.releaseControl exitY) nowMs).1.state = .localActive ∧
      ∃ x y, (machine.onWireMessage (.releaseControl exitY) nowMs).2 =
        (Emission.leave x y).actions := by
  simp [onWireMessage, wasRemote, Emission.actions]

end StateMachine

namespace Emission

/-- The emission is an enter group. -/
def IsEnter (emission : Emission) : Prop :=
  ∃ entryY x y, emission = .enter entryY x y

theorem role_eq_opens {emission : Emission} :
    emission.role = .opens ↔ emission.IsEnter := by
  cases emission <;> simp [role, IsEnter]

end Emission

/-- The enter and leave groups of a trace, in order. -/
def groups (emissions : List Emission) : List Emission :=
  boundaries Emission.role emissions

/-- The action trace of the machine is well formed.  Each call emits one of
four shapes; enter and leave groups alternate, starting with an enter;
messages are forwarded only between an enter and the next leave; the state is
what the last group says; no release is ever sent; and a release received in
`remoteActive` closes the window at any time. -/
theorem StateMachine.run_wellFormed (cfg : EdgeConfig) (calls : List EdgeCall) :
    ∃ emissions : List Emission,
      ((new cfg).run calls).2 = emissions.map Emission.actions ∧
      (∀ before group after, groups emissions = before ++ group :: after →
        (group.IsEnter ↔ Even before.length)) ∧
      (∀ before msg after, emissions = before ++ .message msg :: after →
        ∃ group, (groups before).getLast? = some group ∧ group.IsEnter) ∧
      (((new cfg).run calls).1.state = .remoteActive ↔
        ∃ group, (groups emissions).getLast? = some group ∧ group.IsEnter) ∧
      (∀ exitY, .sendReleaseControl exitY ∉ ((new cfg).run calls).2.flatten) ∧
      (((new cfg).run calls).1.state = .remoteActive → ∀ exitY nowMs,
        (((new cfg).run calls).1.onWireMessage (.releaseControl exitY) nowMs).1.state =
            .localActive ∧
          ∃ x y, (((new cfg).run calls).1.onWireMessage
            (.releaseControl exitY) nowMs).2 = (Emission.leave x y).actions) := by
  obtain ⟨emissions, outputs, windowed⟩ := (new cfg).run_windowed calls
  refine ⟨emissions, outputs, ?_, ?_, ?_, ?_, ?_⟩
  · intro before group after split
    rw [← Emission.role_eq_opens, windowed.alternates split]
    exact iff_true_right rfl
  · rintro before msg after rfl
    obtain ⟨group, last, opens⟩ := windowed.opened_before rfl
    exact ⟨group, last, Emission.role_eq_opens.mp opens⟩
  · rw [← isRemote_iff, windowed.isOpen_iff]
    simp only [groups, Emission.role_eq_opens]
  · intro exitY emitted
    rw [outputs] at emitted
    obtain ⟨actions, member, inActions⟩ := List.mem_flatten.mp emitted
    obtain ⟨emission, _, rfl⟩ := List.mem_map.mp member
    exact emission.sendReleaseControl_notMem_actions exitY inActions
  · intro remote exitY nowMs
    exact onWireMessage_releaseControl remote exitY nowMs

end Kmwarp
