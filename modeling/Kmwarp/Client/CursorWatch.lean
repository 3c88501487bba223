import Kmwarp.Client.Pump
import Kmwarp.Core.Edge

/-!
# Cursor-leave watcher

On every tick the watcher reads `active`, polls the cursor, and at the left
edge sends `ReleaseControl` and clears `active`.  The injector can set
`active` between any two of these.
-/

namespace Kmwarp.Client

open Foundation Wire

def leftEdgeThreshold : Int := 0

/-- Where the watcher is in its tick. -/
inductive WatcherPc where
  | waiting
  | loaded
  | leaving (exitY : UInt16)
  | sent
deriving DecidableEq

inductive WatcherAction where
  | load
  | poll (pos : Option (Int × Int))
  | trySend
  | store
deriving DecidableEq

/-- One atomic action of `cursor_leave_watcher`.  A failed poll has no
position. -/
def cursorLeaveWatcher (peerAddr : String) (action : WatcherAction) (pc : WatcherPc)
    (session : Session) : Option (WatcherPc × Session) :=
  match pc with
  | .waiting =>
      if action = .load then
        some (if session.active then .loaded else .waiting, session)
      else none
  | .loaded =>
      match action with
      | .poll none => some (.waiting, session)
      | .poll (some (x, y)) =>
          if leftEdgeThreshold < x then some (.waiting, session)
          else some (.leaving (clampToU16 y), session)
      | _ => none
  | .leaving exitY =>
      if action = .trySend then
        some (.sent, { session with txOut := session.txOut.offer (.releaseControl exitY) })
      else none
  | .sent =>
      if action = .store then
        some (.waiting, { session with
          active := false
          statusTx := session.statusTx.map fun _ => .connected peerAddr })
      else none

/-- What one action can do. -/
inductive WatcherTurn (peerAddr : String) (pc : WatcherPc) (session : Session) :
    WatcherAction → WatcherPc → Session → Prop where
  | look {action : WatcherAction} {next : WatcherPc}
      (notSent : pc ≠ .sent) (notSending : next ≠ .sent)
      (seenActive : next ≠ .waiting → session.active = true ∨ pc ≠ .waiting) :
      WatcherTurn peerAddr pc session action next session
  | send {exitY : UInt16} (isLeaving : pc = .leaving exitY) :
      WatcherTurn peerAddr pc session .trySend .sent
        { session with txOut := session.txOut.offer (.releaseControl exitY) }
  | clear (isSent : pc = .sent) :
      WatcherTurn peerAddr pc session .store .waiting
        { session with
          active := false
          statusTx := session.statusTx.map fun _ => .connected peerAddr }

theorem watcherTurn {peerAddr : String} {action : WatcherAction} {pc nextPc : WatcherPc}
    {session next : Session}
    (acted : cursorLeaveWatcher peerAddr action pc session = some (nextPc, next)) :
    WatcherTurn peerAddr pc session action nextPc next := by
  cases action with
  | load =>
      cases pc with
      | waiting =>
          cases acted
          refine .look (by decide) ?_ fun loaded => .inl ?_
          · split <;> decide
          · by_contra inactive
            exact loaded (if_neg inactive)
      | loaded | leaving | sent => cases acted
  | poll pos =>
      cases pc with
      | loaded =>
          rcases pos with _ | ⟨x, y⟩
          · cases acted
            exact .look (by decide) (by decide) fun _ => .inr (by decide)
          · rw [cursorLeaveWatcher] at acted
            split at acted
            all_goals
              cases acted
              exact .look (by decide) (by simp) fun _ => .inr (by decide)
      | waiting | leaving | sent => cases pos <;> cases acted
  | trySend =>
      cases pc with
      | leaving exitY =>
          cases acted
          exact .send rfl
      | waiting | loaded | sent => cases acted
  | store =>
      cases pc with
      | sent =>
          cases acted
          exact .clear rfl
      | waiting | loaded | leaving => cases acted

/-- A tick with nothing in between. -/
def cursorLeaveTick (peerAddr : String) (pos : Option (Int × Int))
    (session : Session) : Session :=
  if session.active then
    match pos with
    | none => session
    | some (x, y) =>
        if leftEdgeThreshold < x then session
        else { session with
          txOut := session.txOut.offer (.releaseControl (clampToU16 y))
          active := false
          statusTx := session.statusTx.map fun _ => .connected peerAddr }
  else session

/-- The actions of a tick that starts on this session. -/
def tickActions (pos : Option (Int × Int)) (session : Session) : List WatcherAction :=
  if session.active then
    match pos with
    | none => [.load, .poll none]
    | some (x, y) =>
        if leftEdgeThreshold < x then [.load, .poll (some (x, y))]
        else [.load, .poll (some (x, y)), .trySend, .store]
  else [.load]

/-- Perform watcher actions one after the other. -/
def watch (peerAddr : String) : List WatcherAction → WatcherPc → Session →
    Option (WatcherPc × Session)
  | [], pc, session => some (pc, session)
  | action :: actions, pc, session =>
      match cursorLeaveWatcher peerAddr action pc session with
      | none => none
      | some (pc, session) => watch peerAddr actions pc session

/-- An undisturbed tick is its actions in order. -/
theorem watch_tickActions (peerAddr : String) (pos : Option (Int × Int))
    (session : Session) :
    watch peerAddr (tickActions pos session) .waiting session =
      some (.waiting, cursorLeaveTick peerAddr pos session) := by
  by_cases active : session.active = true
  · rcases pos with _ | ⟨x, y⟩
    · simp [tickActions, cursorLeaveTick, watch, cursorLeaveWatcher, active]
    · by_cases inside : leftEdgeThreshold < x
      · simp [tickActions, cursorLeaveTick, watch, cursorLeaveWatcher, active, inside]
      · simp [tickActions, cursorLeaveTick, watch, cursorLeaveWatcher, active, inside]
  · simp [tickActions, cursorLeaveTick, watch, cursorLeaveWatcher, active]

end Kmwarp.Client
