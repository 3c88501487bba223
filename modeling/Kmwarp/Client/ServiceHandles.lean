import Kmwarp.Client.Service

/-!
# The handles of the service

Every open handle is held by the service thread, by the slot or by one stop handler.
-/

namespace Kmwarp.Client

open Foundation

/-- The token and the environment block that are left open when `current_exe` fails. -/
def Service.leftOpen : Except ServiceError Unit → List ServiceHandle
  | .error (.io _) => [.environmentBlock, .primaryToken]
  | _ => []

def Service.launched : Reply → List ServiceHandle
  | .ok () => [.thread, .process]
  | .error _ => []

/-- What the service thread has still to close, and what it will never close. -/
def ServiceLine.held : ServiceLine → List ServiceHandle
  | .register | .reportRunning | .activeSession | .queryUserToken => []
  | .duplicateToken => [.userToken]
  | .closeUserToken (.ok ()) => [.primaryToken, .userToken]
  | .closeUserToken (.error _) => [.userToken]
  | .createEnvironment | .closeTokenEarly _ => [.primaryToken]
  | .currentExe | .createProcess => [.environmentBlock, .primaryToken]
  | .destroyEnvironment created =>
      Service.launched created ++ [.environmentBlock, .primaryToken]
  | .closePrimaryToken created => Service.launched created ++ [.primaryToken]
  | .initSlot | .storeHandle | .closeLeftover => [.thread, .process]
  | .wait | .takeLeftover | .closeThread => [.thread]
  | .reportStopped spawned => Service.leftOpen spawned
  | .finished spawned _ => (spawned.map Service.leftOpen).getD []

/-- What the service thread may still open. -/
def ServiceLine.toOpen : ServiceLine → List ServiceHandle
  | .register | .reportRunning | .activeSession | .queryUserToken =>
      [.userToken, .primaryToken, .environmentBlock, .process, .thread]
  | .duplicateToken => [.primaryToken, .environmentBlock, .process, .thread]
  | .closeUserToken (.ok ()) | .createEnvironment => [.environmentBlock, .process, .thread]
  | .currentExe | .createProcess => [.process, .thread]
  | _ => []

def HandleSlot.held : HandleSlot → List ServiceHandle
  | .unset | .zero => []
  | .handle => [.process]

def HandlerLine.held : HandlerLine → List ServiceHandle
  | .terminate | .closeHandle => [.process]
  | .readSlot | .takeHandle | .returned => []

namespace Service

def held (service : Service) : List ServiceHandle :=
  service.line.held ++ (service.slot.held ++ service.handlers.flatMap HandlerLine.held)

/-- The handles are accounted for, and the slot holds the process handle only during the
wait. -/
structure Sound (service : Service) : Prop where
  accounted : service.ledger.Accounted service.held
  fresh : ∀ handle ∈ service.line.toOpen, handle ∉ service.ledger.acquired
  slotDuringWait : service.slot = .handle → service.line.duringWait = true

theorem sound_start : start.Sound where
  accounted := .empty
  fresh _ _ := List.not_mem_nil
  slotDuringWait := nofun

variable {service next : Service}

theorem Sound.free {line : ServiceLine} (sound : service.Sound) (current : service.line = line)
    (outside : line.duringWait = false) : service.slot ≠ .handle := by
  intro holds
  have inside := sound.slotDuringWait holds
  rw [current, outside] at inside
  cases inside

/-- A step of the service thread that leaves the slot alone. -/
theorem Sound.serve {line before : ServiceLine} {ledger : Ledger ServiceHandle}
    {helper : HelperState} {accepting : Bool} (sound : service.Sound)
    (current : service.line = before) (outside : before.duringWait = false)
    (accounted : ∀ others, service.ledger.Accounted (before.held ++ others) →
      ledger.Accounted (line.held ++ others))
    (fresh : ∀ handle ∈ line.toOpen, handle ∉ ledger.acquired) :
    ({ service with line, ledger, helper, accepting } : Service).Sound where
  accounted := accounted _ (current ▸ sound.accounted)
  fresh := fresh
  slotDuringWait holds := absurd holds (sound.free current outside)

section Serve

variable {line before : ServiceLine} {helper : HelperState} {accepting : Bool}
  {handle : ServiceHandle}

/-- A step of the service thread that opens and closes nothing. -/
theorem Sound.advance (sound : service.Sound) (current : service.line = before)
    (outside : before.duringWait = false)
    (held : before.held.Perm line.held) (toOpen : line.toOpen ⊆ before.toOpen) :
    ({ service with line, helper, accepting } : Service).Sound := by
  apply sound.serve current outside
  · intro others accounted
    exact accounted.move (held.append_right _)
  · intro handle isToOpen
    exact sound.fresh handle (current ▸ toOpen isToOpen)

/-- A step of the service thread that opens a handle. -/
theorem Sound.opens (sound : service.Sound) (current : service.line = before)
    (outside : before.duringWait = false)
    (held : line.held.Perm (handle :: before.held))
    (toOpen : before.toOpen = handle :: line.toOpen) (absent : handle ∉ line.toOpen) :
    ({ service with line, helper, accepting,
                    ledger := service.ledger.acquire handle } : Service).Sound := by
  have fresh : ∀ other ∈ handle :: line.toOpen, other ∉ service.ledger.acquired := by
    rw [← toOpen, ← current]
    exact sound.fresh
  apply sound.serve current outside
  · intro others accounted
    exact accounted.acquire (fresh handle List.mem_cons_self) (held.append_right others)
  · exact Ledger.fresh_acquire fresh absent

/-- A step of the service thread that closes a handle. -/
theorem Sound.closes (sound : service.Sound) (current : service.line = before)
    (outside : before.duringWait = false)
    (held : before.held.Perm (handle :: line.held)) (toOpen : line.toOpen ⊆ before.toOpen) :
    ({ service with line, helper, accepting,
                    ledger := service.ledger.release handle } : Service).Sound := by
  apply sound.serve current outside
  · intro others accounted
    exact accounted.release (held.append_right others)
  · intro other isToOpen
    exact sound.fresh other (current ▸ toOpen isToOpen)

end Serve

/-- A step of a handler, with the slot. -/
theorem Sound.handle {handler : Nat} {before after : HandlerLine} {slot : HandleSlot}
    {ledger : Ledger ServiceHandle} {helper : HelperState} {terminateCalls : Nat}
    (sound : service.Sound) (found : service.handlers[handler]? = some before)
    (accounted : ∀ others,
      service.ledger.Accounted (service.slot.held ++ (before.held ++ others)) →
      ledger.Accounted (slot.held ++ (after.held ++ others)))
    (acquired : ledger.acquired = service.ledger.acquired)
    (kept : slot = .handle → service.slot = .handle) :
    ({ service.setHandler handler after with
        slot, ledger, helper, terminateCalls } : Service).Sound where
  accounted := by
    -- what the others hold, the handler in question left out
    obtain ⟨others, split, swapped⟩ := perm_flatMap_split HandlerLine.held found after
    have now : service.ledger.Accounted
        (service.slot.held ++ (before.held ++ (others ++ service.line.held))) := by
      refine sound.accounted.move ?_
      calc service.held.Perm
            ((service.slot.held ++ service.handlers.flatMap HandlerLine.held) ++
              service.line.held) := List.perm_append_comm
        _ |>.Perm ((service.slot.held ++ (before.held ++ others)) ++ service.line.held) :=
          (split.append_left _).append_right _
        _ |>.Perm _ := by simp
    refine (accounted _ now).move ?_
    calc (slot.held ++ (after.held ++ (others ++ service.line.held))).Perm
          ((slot.held ++ (after.held ++ others)) ++ service.line.held) := by simp
      _ |>.Perm ((slot.held ++ (service.handlers.set handler after).flatMap HandlerLine.held) ++
            service.line.held) := (swapped.symm.append_left _).append_right _
      _ |>.Perm _ := List.perm_append_comm
  fresh := by
    rw [acquired]
    exact sound.fresh
  slotDuringWait holds := sound.slotDuringWait (kept holds)

/-- The exchange of the slot by a handler: the handle goes over if it is there. -/
theorem Sound.takeHandle {handler : Nat} (sound : service.Sound)
    (found : service.handlers[handler]? = some .takeHandle) :
    ({ service.setHandler handler (if service.slot = .handle then .terminate else .returned) with
      slot := .zero } : Service).Sound := by
  refine sound.handle found (fun others accounted => ?_) rfl nofun
  cases slot : service.slot with
  | unset =>
      rw [slot] at accounted
      exact accounted
  | zero =>
      rw [slot] at accounted
      exact accounted
  | handle =>
      rw [slot] at accounted
      exact accounted

/-- The exchange of the slot at the end of the wait. -/
theorem Sound.takeLeftover (sound : service.Sound) (line : service.line = .takeLeftover) :
    ({ service.moveTo (if service.slot = .handle then .closeLeftover else .closeThread) with
      slot := .zero } : Service).Sound where
  accounted := by
    have accounted := sound.accounted
    rw [held, line] at accounted
    cases slot : service.slot with
    | unset =>
        rw [slot] at accounted
        exact accounted
    | zero =>
        rw [slot] at accounted
        exact accounted
    | handle =>
        rw [slot] at accounted
        exact accounted
  fresh := by
    intro handle isToOpen
    cases slot : service.slot <;> simp [slot, moveTo, ServiceLine.toOpen] at isToOpen
  slotDuringWait := nofun

theorem Sound.initSlot (sound : service.Sound) (line : service.line = .initSlot) :
    ({ service.moveTo .storeHandle with
      slot := if service.slot = .unset then .zero else service.slot } : Service).Sound where
  accounted := by
    have accounted := sound.accounted
    rw [held, line] at accounted
    cases slot : service.slot with
    | unset =>
        rw [slot] at accounted
        exact accounted
    | zero =>
        rw [slot] at accounted
        exact accounted
    | handle => exact absurd slot (sound.free line rfl)
  fresh := nofun
  slotDuringWait holds := by
    cases slot : service.slot with
    | unset => simp [slot] at holds
    | zero => simp [slot] at holds
    | handle => exact absurd slot (sound.free line rfl)

theorem Sound.waitReturns (sound : service.Sound) (line : service.line = .wait) :
    (service.moveTo .takeLeftover).Sound where
  accounted := by
    have accounted := sound.accounted
    rw [held, line] at accounted
    exact accounted
  fresh := nofun
  slotDuringWait _ := rfl

theorem Sound.deliver (sound : service.Sound) :
    ({ service with handlers := service.handlers ++ [.readSlot] } : Service).Sound where
  accounted := by
    have same : (service.handlers ++ [HandlerLine.readSlot]).flatMap HandlerLine.held =
        service.handlers.flatMap HandlerLine.held := by
      simp [HandlerLine.held]
    have accounted := sound.accounted
    rw [held, ← same] at accounted
    exact accounted
  fresh := sound.fresh
  slotDuringWait := sound.slotDuringWait

theorem Sound.storeHandle (sound : service.Sound) (line : service.line = .storeHandle) :
    ({ service.moveTo .wait with slot := .handle } : Service).Sound where
  accounted := by
    have free := sound.free line rfl
    have accounted := sound.accounted
    rw [held, line] at accounted
    cases slot : service.slot with
    | unset =>
        rw [slot] at accounted
        exact accounted
    | zero =>
        rw [slot] at accounted
        exact accounted
    | handle => exact absurd slot free
  fresh := nofun
  slotDuringWait _ := rfl

/-- The handles stay accounted for, whatever the calls return and whoever is next. -/
theorem sound_step {label : ServiceStep} (sound : service.Sound)
    (taken : service.step label = some next) : next.Sound := by
  cases label with
  | register reply =>
      obtain ⟨line, rfl⟩ := atLine_eq_some.mp taken
      cases reply with
      | ok => exact sound.advance line rfl (.refl _) (List.Subset.refl _)
      | error code => exact sound.advance line rfl (.refl _) (List.nil_subset _)
  | reportRunning reply =>
      obtain ⟨line, rfl⟩ := atLine_eq_some.mp taken
      cases reply with
      | ok => exact sound.advance line rfl (.refl _) (List.Subset.refl _)
      | error code => exact sound.advance line rfl (.refl _) (List.nil_subset _)
  | activeSession sessionId =>
      obtain ⟨line, rfl⟩ := atLine_eq_some.mp taken
      by_cases none : sessionId = noSession
      · rw [if_pos none]
        exact sound.advance line rfl (.refl _) (List.nil_subset _)
      · rw [if_neg none]
        exact sound.advance line rfl (.refl _) (List.Subset.refl _)
  | queryUserToken reply =>
      obtain ⟨line, rfl⟩ := atLine_eq_some.mp taken
      cases reply with
      | ok => exact sound.opens line rfl (.refl _) rfl (by decide)
      | error code => exact sound.advance line rfl (.refl _) (List.nil_subset _)
  | duplicateToken reply =>
      obtain ⟨line, rfl⟩ := atLine_eq_some.mp taken
      cases reply with
      | ok => exact sound.opens line rfl (.refl _) rfl (by simp [ServiceLine.toOpen])
      | error code => exact sound.advance line rfl (.refl _) (List.nil_subset _)
  | closeUserToken =>
      cases line : service.line with
      | closeUserToken duplicated =>
          simp only [step, line] at taken
          cases duplicated with
          | ok =>
              obtain rfl := Option.some.inj taken
              exact sound.closes line rfl (.swap _ _ _) (List.Subset.refl _)
          | error code =>
              obtain rfl := Option.some.inj taken
              exact sound.closes line rfl (.refl _) (List.nil_subset _)
      | _ => simp [step, line] at taken
  | createEnvironment reply =>
      obtain ⟨line, rfl⟩ := atLine_eq_some.mp taken
      cases reply with
      | ok => exact sound.opens line rfl (.refl _) rfl (by decide)
      | error code => exact sound.advance line rfl (.refl _) (List.nil_subset _)
  | closeTokenEarly =>
      cases line : service.line with
      | closeTokenEarly code =>
          simp only [step, line] at taken
          obtain rfl := Option.some.inj taken
          exact sound.closes line rfl (.refl _) (List.nil_subset _)
      | _ => simp [step, line] at taken
  | currentExe reply =>
      obtain ⟨line, rfl⟩ := atLine_eq_some.mp taken
      cases reply with
      | ok => exact sound.advance line rfl (.refl _) (List.Subset.refl _)
      | error code => exact sound.advance line rfl (.refl _) (List.nil_subset _)
  | createProcess reply =>
      obtain ⟨line, rfl⟩ := atLine_eq_some.mp taken
      cases reply with
      | ok =>
          have fresh := sound.fresh
          rw [line] at fresh
          refine sound.serve line rfl (fun others accounted => ?_)
            fun handle isToOpen => absurd isToOpen List.not_mem_nil
          have withProcess := accounted.acquire (fresh .process (by decide)) (.refl _)
          exact withProcess.acquire (Ledger.fresh_acquire fresh (by decide) .thread (by decide))
            (.refl _)
      | error code => exact sound.advance line rfl (.refl _) (List.nil_subset _)
  | destroyEnvironment =>
      cases line : service.line with
      | destroyEnvironment created =>
          simp only [step, line] at taken
          obtain rfl := Option.some.inj taken
          exact sound.closes line rfl List.perm_middle (List.nil_subset _)
      | _ => simp [step, line] at taken
  | closePrimaryToken =>
      cases line : service.line with
      | closePrimaryToken created =>
          simp only [step, line] at taken
          cases created with
          | ok =>
              obtain rfl := Option.some.inj taken
              exact sound.closes line rfl List.perm_append_comm (List.nil_subset _)
          | error code =>
              obtain rfl := Option.some.inj taken
              exact sound.closes line rfl (.refl _) (List.nil_subset _)
      | _ => simp [step, line] at taken
  | initSlot =>
      obtain ⟨line, rfl⟩ := atLine_eq_some.mp taken
      exact sound.initSlot line
  | storeHandle =>
      obtain ⟨line, rfl⟩ := atLine_eq_some.mp taken
      exact sound.storeHandle line
  | waitReturns =>
      obtain ⟨_, line, rfl⟩ := waitReturns_eq_some.mp taken
      exact sound.waitReturns line
  | takeLeftover =>
      obtain ⟨line, rfl⟩ := atLine_eq_some.mp taken
      exact sound.takeLeftover line
  | closeLeftover =>
      obtain ⟨line, rfl⟩ := atLine_eq_some.mp taken
      exact sound.closes line rfl (.swap _ _ _) (List.nil_subset _)
  | closeThread =>
      obtain ⟨line, rfl⟩ := atLine_eq_some.mp taken
      exact sound.closes line rfl (.refl _) (List.nil_subset _)
  | reportStopped reply =>
      cases line : service.line with
      | reportStopped spawned =>
          simp only [step, line] at taken
          obtain rfl := Option.some.inj taken
          cases reply with
          | ok => exact sound.advance line rfl (.refl _) (List.nil_subset _)
          | error code => exact sound.advance line rfl (.refl _) (List.nil_subset _)
      | _ => simp [step, line] at taken
  | helperExits =>
      obtain ⟨_, rfl⟩ := helperExits_eq_some.mp taken
      exact ⟨sound.accounted, sound.fresh, sound.slotDuringWait⟩
  | deliver control =>
      rcases deliver_eq_some taken with rfl | rfl
      · exact sound
      · exact sound.deliver
  | readSlot handler =>
      obtain ⟨found, rfl⟩ := atHandler_eq_some.mp taken
      by_cases unset : service.slot = .unset
      · rw [if_pos unset]
        exact sound.handle found (fun _ accounted => accounted) rfl id
      · rw [if_neg unset]
        exact sound.handle found (fun _ accounted => accounted) rfl id
  | takeHandle handler =>
      obtain ⟨found, rfl⟩ := atHandler_eq_some.mp taken
      exact sound.takeHandle found
  | terminate handler reply =>
      obtain ⟨found, rfl⟩ := atHandler_eq_some.mp taken
      exact sound.handle found (fun _ accounted => accounted) rfl id
  | closeHandle handler =>
      obtain ⟨found, rfl⟩ := atHandler_eq_some.mp taken
      refine sound.handle found (fun others accounted => ?_) rfl id
      exact accounted.release List.perm_middle

theorem sound_of_exec {labels : List ServiceStep} {service : Service}
    (run : exec step start labels = some service) : service.Sound := by
  have kept : ∀ service label next, Sound service → step service label = some next →
      next.Sound :=
    fun _ _ _ sound taken => sound_step sound taken
  exact invariant_of_exec kept sound_start run

theorem held_of_settled {spawned : Option (Except ServiceError Unit)}
    {result : Except ServiceError Unit} (sound : service.Sound)
    (settled : service.Settled spawned result) :
    service.held = (spawned.map leftOpen).getD [] := by
  have free := sound.free settled.1 rfl
  have slot : service.slot.held = [] := by
    cases holds : service.slot with
    | unset => rfl
    | zero => rfl
    | handle => exact absurd holds free
  have handlers : service.handlers.flatMap HandlerLine.held = [] := by
    apply List.flatMap_eq_nil_iff.mpr
    intro handler member
    rw [settled.2 handler member]
    rfl
  rw [held, settled.1, slot, handlers, List.append_nil, List.append_nil]
  rfl

theorem mem_leftOpen_iff {spawned : Option (Except ServiceError Unit)} {handle : ServiceHandle} :
    handle ∈ (spawned.map leftOpen).getD [] ↔
      (∃ code, spawned = some (.error (.io code))) ∧
        (handle = .primaryToken ∨ handle = .environmentBlock) := by
  match spawned with
  | none => simp
  | some (.ok ()) => simp [leftOpen]
  | some (.error (.io code)) => simp [leftOpen, or_comm]
  | some (.error (.windowsService code)) => simp [leftOpen]
  | some (.error (.win32 code)) => simp [leftOpen]
  | some (.error .noActiveSession) => simp [leftOpen]

/-- No handle is closed twice or before it is open, however the stop handlers and the
service thread interleave.  At the end all are closed, except that a failing `current_exe`
leaves the user's token and environment block open. -/
theorem handles_closed_once {labels : List ServiceStep}
    (run : exec step start labels = some service) :
    service.ledger.released.Nodup ∧
      (∀ handle ∈ service.ledger.released, handle ∈ service.ledger.acquired) ∧
      ∀ spawned result, service.Settled spawned result → ∀ handle,
        (handle ∈ service.ledger.acquired ∧ handle ∉ service.ledger.released) ↔
          (∃ code, spawned = some (.error (.io code))) ∧
            (handle = .primaryToken ∨ handle = .environmentBlock) := by
  have sound := sound_of_exec run
  refine ⟨sound.accounted.released_once, fun _ => sound.accounted.acquired_of_released, ?_⟩
  intro spawned result settled handle
  rw [sound.accounted.open_iff, held_of_settled sound settled, mem_leftOpen_iff]

theorem handles_closed_once_stoppedTwice :
    ∃ service, exec step start stoppedTwice = some service ∧
      service.Settled (some (.ok ())) (.ok ()) ∧ .process ∈ service.ledger.released ∧
      service.ledger.released.Nodup := by
  have run : (exec step start stoppedTwice).isSome = true := by decide
  obtain ⟨service, run⟩ := Option.isSome_iff_exists.mp run
  refine ⟨service, run, ?_, ?_, (handles_closed_once run).1⟩
  · have settled : ((exec step start stoppedTwice).map fun service =>
        decide (service.Settled (some (.ok ())) (.ok ()))) = some true := by decide
    rw [run] at settled
    exact of_decide_eq_true (Option.some.inj settled)
  · have closed : ((exec step start stoppedTwice).map fun service =>
        decide (.process ∈ service.ledger.released)) = some true := by decide
    rw [run] at closed
    exact of_decide_eq_true (Option.some.inj closed)

end Service

end Kmwarp.Client
