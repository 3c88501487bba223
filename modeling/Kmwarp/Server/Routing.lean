import Kmwarp.Server.Console
import Kmwarp.Server.Forwarding

/-!
# Where a captured event goes

The tap decides from the swallow flag whether the local system gets an event,
and the brain decides from its state whether the peer does.  The first decision
is taken when the callback returns and the second when the event has come
through the queues, so control can change in between.
-/

namespace Kmwarp.Server

open Foundation Wire

/-- What one side has decided about an event: whether it takes it, and how often
the swallow flag had been changed by then. -/
structure Verdict where
  event : SourceEvent
  taken : Bool
  changes : Nat
deriving DecidableEq

/-- The console with a ledger.  `translated` is what the event in the callback
translates to, `returned` what the callbacks have decided and `received` what
the brain has. -/
structure Routing where
  console : Console
  translated : Option SourceEvent
  changes : Nat
  returned : List Verdict
  received : List Verdict

/-- An event other than a cursor position. -/
def inputEvent? (event : SourceEvent) : Option SourceEvent :=
  (sourceEventToMessage event).map fun _ => event

def BrainInput.event? : BrainInput → Option SourceEvent
  | .source event => inputEvent? event
  | .wireMessage _ => none

/-- The value an effect stores in the swallow flag. -/
def Effect.store? : Effect → Option Bool
  | .storeSwallow value => some value
  | _ => none

/-- Whether the brain sends a message to the peer on this input. -/
def Brain.forwards (env : BrainEnv) (brain : Brain) (input : BrainInput) (nowMs : Nat) :
    Bool :=
  !(sends (brain.step env input nowMs).2).isEmpty

def translatedEvent (event : TapEvent) (heldMods : UInt32) : Option SourceEvent :=
  if isTapDisabled event.etype then none else (translate event heldMods).1

namespace Routing

def start (env : BrainEnv) (history : List (KeyTransition UInt16)) : Routing where
  console := .start env history
  translated := none
  changes := 0
  returned := []
  received := []

/-- No queue overflows. -/
def hasRoom (console : Console) : ConsoleLabel → Bool
  | .forwardSource | .wireMessage _ => console.brainQueue.items.length < brainChannelBound
  | _ => true

/-- What the ledger learns from a step that leads to `next`. -/
def observe (env : BrainEnv) (routing : Routing) (label : ConsoleLabel) (next : Console) :
    Routing :=
  let console := routing.console
  match label with
  | .tapSend event =>
      { routing with
        console := next
        translated := translatedEvent event console.heldMods }
  | .tapReturn =>
      let passes := console.callback.any fun pending =>
        cbThunkPasses pending.1 console.swallow
      { routing with
        console := next
        translated := none
        returned := routing.returned ++ routing.translated.toList.map fun event =>
          ⟨event, passes, routing.changes⟩ }
  | .receive nowMs =>
      let front := console.brainQueue.items.head?
      let forwards := front.any fun input => console.brain.forwards env input nowMs
      { routing with
        console := next
        received := routing.received ++ (front.bind BrainInput.event?).toList.map
          fun event => ⟨event, forwards, routing.changes⟩ }
  | .effect =>
      { routing with
        console := next
        changes := routing.changes + (console.effects.head?.bind Effect.store?).toList.length }
  | _ => { routing with console := next }

def step (env : BrainEnv) (routing : Routing) (label : ConsoleLabel) : Option Routing :=
  if hasRoom routing.console label then
    (routing.console.step env label).map (routing.observe env label)
  else none

/-- Each event that both have decided about is taken by exactly one of the local
system and the peer. -/
def ExactlyOne (routing : Routing) : Prop :=
  ∀ (index : Nat) tap brain, routing.returned[index]? = some tap →
    routing.received[index]? = some brain →
      tap.event = brain.event ∧ (tap.taken = !brain.taken)

/-- Between the decisions about an event control changes an even number of
times, if at all. -/
def KeepsControl (routing : Routing) : ConsoleLabel → Prop
  | .tapReturn =>
      routing.translated.isSome → ∀ brain,
        routing.received[routing.returned.length]? = some brain →
          brain.changes % 2 = routing.changes % 2
  | .receive _ =>
      (routing.console.brainQueue.items.head?.bind BrainInput.event?).isSome → ∀ tap,
        routing.returned[routing.received.length]? = some tap →
          tap.changes % 2 = routing.changes % 2
  | _ => True

end Routing

/-! ## What the two sides decide -/

/-- The tap swallows everything it translates. -/
theorem isSwallowable_of_translate {event : TapEvent} {heldMods : UInt32}
    {translated : SourceEvent} (translates : (translate event heldMods).1 = some translated) :
    isSwallowable event.etype = true := by
  by_contra notSwallowable
  simp only [isSwallowable, Bool.or_eq_true, decide_eq_true_eq, not_or] at notSwallowable
  simp [translate, isMouseMotion, notSwallowable] at translates

theorem translateKey_ne_cursorAt (event : TapEvent) (state : KeyState) (x y : Int) :
    translateKey event state ≠ some (.cursorAt x y) := by
  rw [translateKey]
  split
  · exact nofun
  · split <;> exact nofun

theorem translateFlagsChanged_ne_cursorAt (event : TapEvent) (heldMods : UInt32)
    (x y : Int) : (translateFlagsChanged event heldMods).1 ≠ some (.cursorAt x y) := by
  rw [translateFlagsChanged]
  split
  · exact nofun
  · dsimp only
    split <;> exact nofun

private theorem ite_fst_ne {α β : Type} {condition : Prop} [Decidable condition]
    {yes no : α × β} {value : α} (yesOther : yes.1 ≠ value) (noOther : no.1 ≠ value) :
    (if condition then yes else no).1 ≠ value := by
  split
  · exact yesOther
  · exact noOther

/-- The translation of an event is not a cursor position. -/
theorem translate_ne_cursorAt (event : TapEvent) (heldMods : UInt32) (x y : Int) :
    (translate event heldMods).1 ≠ some (.cursorAt x y) := by
  rw [translate]
  iterate 8 refine ite_fst_ne nofun ?_
  refine ite_fst_ne (translateKey_ne_cursorAt event .down x y) ?_
  refine ite_fst_ne (translateKey_ne_cursorAt event .up x y) ?_
  exact ite_fst_ne (translateFlagsChanged_ne_cursorAt event heldMods x y) nofun

theorem inputEvent_translate {event : TapEvent} {heldMods : UInt32}
    {translated : SourceEvent} (translates : (translate event heldMods).1 = some translated) :
    inputEvent? translated = some translated := by
  cases translated with
  | cursorAt x y => exact absurd translates (translate_ne_cursorAt event heldMods x y)
  | mouseRel | mouseButton | mouseWheel | key => rfl

theorem cbThunkPasses_of_translated {event : TapEvent} {heldMods : UInt32}
    {translated : SourceEvent}
    (translates : translatedEvent event heldMods = some translated) (swallow : Bool) :
    cbThunkPasses event swallow = !swallow := by
  rw [translatedEvent] at translates
  split at translates
  · cases translates
  · rename_i enabled
    rw [cbThunkPasses, if_neg enabled, isSwallowable_of_translate translates, Bool.and_true]

/-- The tap queues the translation of an event, and behind it at most a cursor
position. -/
theorem filterMap_cbThunkSend (event : TapEvent) (heldMods : UInt32) :
    (cbThunkSend event heldMods).1.filterMap inputEvent? =
      (translatedEvent event heldMods).toList := by
  rw [cbThunkSend, translatedEvent]
  split
  · rfl
  · have cursor : (if isMouseMotion event.etype then
        [SourceEvent.cursorAt event.location.1 event.location.2] else []).filterMap
          inputEvent? = [] := by
      split <;> rfl
    cases translates : (translate event heldMods).1 with
    | none => simp [translates, cursor]
    | some translated => simp [translates, cursor, inputEvent_translate translates]

/-- The brain forwards input events exactly while the peer is active. -/
theorem Brain.forwards_eq (env : BrainEnv) (brain : Brain) {event : SourceEvent}
    (isInput : (inputEvent? event).isSome) (nowMs : Nat) :
    brain.forwards env (.source event) nowMs = decide (brain.sm.state = .remoteActive) := by
  rw [inputEvent?, Option.isSome_map] at isInput
  obtain ⟨msg, converted⟩ := Option.isSome_iff_exists.mp isInput
  have remoteForwards := fun isRemote => brain.receive_of_remote env isRemote converted nowMs
  have received := brain.received env (.source event) nowMs
  rw [forwards, step]
  generalize brain.receive env (.source event) nowMs = result at received remoteForwards
  obtain ⟨next, actions⟩ := result
  cases received with
  | crossing => cases converted
  | forwarding _ isRemote =>
      have wasRemote : next.sm.state = .remoteActive := isRemote
      simp [performAll, perform, executeAction, Effect.sent?, wasRemote]
  | silent sameState _ =>
      have notRemote : brain.sm.state ≠ .remoteActive := by
        intro isRemote
        cases remoteForwards isRemote
      simp [performAll, notRemote]

/-! ## The flag and the state -/

/-- The value an action stores in the swallow flag. -/
def actionStore? : Action → Option Bool
  | .startSwallow => some true
  | .stopSwallow => some false
  | _ => none

/-- An action stores what it says, in one of its effects. -/
theorem filterMap_store_executeAction (remote : String) (modRemap : ModRemap)
    (held : HeldKeys) (action : Action) :
    (executeAction remote modRemap held action).2.filterMap Effect.store? =
      (actionStore? action).toList := by
  have drain := @filterMap_drain _ Effect.store? (fun _ => rfl) held
  cases action <;> simp [executeAction, Effect.store?, actionStore?, drain]

namespace Console

def remote (console : Console) : Bool :=
  console.brain.sm.state = .remoteActive

/-- The stores to the swallow flag that the brain has decided on and not yet
made. -/
def pendingStores (console : Console) : List Bool :=
  console.effects.filterMap Effect.store? ++ console.actions.filterMap actionStore?

/-- The flag follows the state: the one store that is pending, if any, makes them
agree. -/
def FollowsState (console : Console) : Prop :=
  console.pendingStores = if console.swallow = console.remote then [] else [console.remote]

/-- With nothing pending the flag agrees with the state. -/
theorem FollowsState.agree {console : Console} (follows : console.FollowsState)
    (noActions : console.actions = []) (noEffects : console.effects = []) :
    console.swallow = console.remote := by
  by_contra differ
  rw [FollowsState, pendingStores, noActions, noEffects, if_neg differ] at follows
  cases follows

theorem followsState_receive {env : BrainEnv} {console next : Console} {nowMs : Nat}
    (follows : console.FollowsState)
    (stepped : console.step env (.receive nowMs) = some next) : next.FollowsState := by
  obtain ⟨noActions, noEffects, input, brainQueue, _, rfl⟩ := step_receive stepped
  have agree := follows.agree noActions noEffects
  have received := console.brain.received env input nowMs
  simp only [FollowsState, pendingStores, remote, noEffects] at agree ⊢
  generalize console.brain.receive env input nowMs = result at received
  obtain ⟨brain, actions⟩ := result
  dsimp only at received ⊢
  cases received with
  | crossing wasLocal isRemote _ =>
      simp [agree, wasLocal, isRemote, List.filterMap, actionStore?]
  | forwarding _ isRemote => simp [agree, isRemote, actionStore?]
  | leaving wasRemote isLocal _ => simp [agree, wasRemote, isLocal, actionStore?]
  | silent sameState _ => simp [agree, sameState]

theorem followsState_perform {env : BrainEnv} {console next : Console}
    (follows : console.FollowsState)
    (stepped : console.step env .perform = some next) : next.FollowsState := by
  obtain ⟨noEffects, action, actions, isNext, rfl⟩ := step_perform stepped
  rw [FollowsState, pendingStores, noEffects, isNext] at follows
  have stores : (console.brain.perform env action).2.filterMap Effect.store? =
      (actionStore? action).toList :=
    filterMap_store_executeAction _ _ _ action
  change (console.brain.perform env action).2.filterMap Effect.store? ++
    actions.filterMap actionStore? = _
  rw [stores]
  refine Eq.trans ?_ follows
  cases isStore : actionStore? action with
  | none => simp [isStore]
  | some value => simp [isStore]

/-- A store turns the flag over. -/
theorem followsState_effect {env : BrainEnv} {console next : Console}
    (follows : console.FollowsState)
    (stepped : console.step env .effect = some next) :
    next.FollowsState ∧
      next.swallow =
        xor console.swallow (console.effects.head?.bind Effect.store?).isSome := by
  obtain ⟨effect, effects, isNext, rfl⟩ := step_effect stepped
  rw [FollowsState, pendingStores, isNext] at follows
  rw [isNext]
  cases effect with
  | storeSwallow value =>
      change value :: (effects.filterMap Effect.store? ++
        console.actions.filterMap actionStore?) = _ at follows
      split at follows
      · cases follows
      · rename_i differ
        obtain ⟨isRemote, noMore⟩ := List.cons.inj follows
        constructor
        · refine noMore.trans (if_pos ?_).symm
          exact isRemote
        · change value = xor console.swallow true
          rw [isRemote, Bool.xor_true]
          exact Bool.eq_not.mpr fun same => differ same.symm
  | enqueue | warpCursorAbs | hideCursor | showCursor | publishStatus =>
      exact ⟨follows, (Bool.xor_false _).symm⟩

/-- The other threads change neither the state nor what is pending. -/
theorem followsState_frame {env : BrainEnv} {console next : Console} {label : ConsoleLabel}
    (follows : console.FollowsState) (other : ofBrain label = false)
    (sameFlag : next.swallow = console.swallow)
    (stepped : console.step env label = some next) : next.FollowsState := by
  obtain ⟨sameBrain, sameActions, sameEffects⟩ := step_frame other stepped
  rw [FollowsState, pendingStores, remote, sameFlag, sameBrain, sameActions, sameEffects]
  exact follows

end Console

namespace Routing

/-- What the ledger says is true, and both sides decide about the events in the
order of their capture. -/
structure Sound (routing : Routing) : Prop where
  follows : routing.console.FollowsState
  parity : routing.console.swallow = decide (routing.changes % 2 = 1)
  returned : ∀ verdict ∈ routing.returned,
    verdict.taken = decide (verdict.changes % 2 = 0)
  received : ∀ verdict ∈ routing.received,
    verdict.taken = decide (verdict.changes % 2 = 1)
  callback : ∀ event, routing.translated = some event →
    ∃ tapEvent transition, routing.console.callback = some (tapEvent, transition) ∧
      ∀ swallow, cbThunkPasses tapEvent swallow = !swallow
  order : routing.received.map Verdict.event ++
      (routing.console.brainQueue.items.filterMap BrainInput.event? ++
        routing.console.tapQueue.filterMap inputEvent?) =
    routing.returned.map Verdict.event ++ routing.translated.toList

theorem sound_start (env : BrainEnv) (history : List (KeyTransition UInt16)) :
    Sound (start env history) where
  follows := rfl
  parity := rfl
  returned := nofun
  received := nofun
  callback := nofun
  order := rfl

theorem step_eq_some {env : BrainEnv} {routing next : Routing} {label : ConsoleLabel}
    (stepped : routing.step env label = some next) :
    hasRoom routing.console label = true ∧ ∃ console,
      routing.console.step env label = some console ∧
        next = routing.observe env label console := by
  rw [step] at stepped
  split at stepped
  · rename_i room
    obtain ⟨console, taken, rfl⟩ := Option.map_eq_some_iff.mp stepped
    exact ⟨room, console, taken, rfl⟩
  · cases stepped

private theorem decide_eq_not_odd (count : Nat) :
    decide (count % 2 = 0) = !decide (count % 2 = 1) := by
  rcases Nat.mod_two_eq_zero_or_one count with even | odd
  · simp [even]
  · simp [odd]

private theorem xor_odd (count : Nat) (store : Option Bool) :
    xor (decide (count % 2 = 1)) store.isSome =
      decide ((count + store.toList.length) % 2 = 1) := by
  cases store with
  | none => rw [Option.isSome_none, Bool.xor_false, Option.toList_none, List.length_nil,
      Nat.add_zero]
  | some value =>
      rcases Nat.mod_two_eq_zero_or_one count with even | odd
      · simp [Nat.add_mod, even]
      · simp [Nat.add_mod, odd]

theorem sound_tapSend {env : BrainEnv} {routing next : Routing} {event : TapEvent}
    (sound : Sound routing) (stepped : routing.step env (.tapSend event) = some next) :
    Sound next := by
  obtain ⟨_, console, taken, rfl⟩ := step_eq_some stepped
  have follows := fun sameFlag => Console.followsState_frame sound.follows rfl sameFlag taken
  obtain ⟨idle, rfl⟩ := Console.step_tapSend taken
  have noneTranslated : routing.translated = none := by
    cases translated : routing.translated with
    | none => rfl
    | some event =>
        obtain ⟨_, _, inCallback, _⟩ := sound.callback event translated
        rw [idle] at inCallback
        cases inCallback
  have order := sound.order
  rw [noneTranslated] at order
  exact {
    follows := follows rfl
    parity := sound.parity
    returned := sound.returned
    received := sound.received
    callback := fun translated translates =>
      ⟨event, _, rfl, cbThunkPasses_of_translated translates⟩
    order := by
      simp only [observe, List.filterMap_append, filterMap_cbThunkSend]
      rw [← List.append_assoc (List.filterMap _ _), ← List.append_assoc, order,
        Option.toList_none, List.append_nil] }

theorem sound_tapReturn {env : BrainEnv} {routing next : Routing} (sound : Sound routing)
    (stepped : routing.step env .tapReturn = some next) : Sound next := by
  obtain ⟨_, console, taken, rfl⟩ := step_eq_some stepped
  have follows := fun sameFlag => Console.followsState_frame sound.follows rfl sameFlag taken
  obtain ⟨_, _, pending, rfl⟩ := Console.step_tapReturn taken
  exact {
    follows := follows rfl
    parity := sound.parity
    returned := by
      intro verdict member
      rcases List.mem_append.mp member with earlier | added
      · exact sound.returned verdict earlier
      · obtain ⟨event, translates, rfl⟩ := List.mem_map.mp added
        obtain ⟨tapEvent, transition, inCallback, passes⟩ :=
          sound.callback event (Option.mem_toList.mp translates)
        simp only [inCallback, Option.any_some, passes, sound.parity]
        exact (decide_eq_not_odd routing.changes).symm
    received := sound.received
    callback := by
      intro event inCallback
      cases inCallback
    order := by
      simp only [observe, List.map_append, List.map_map]
      rw [sound.order]
      simp [Function.comp_def] }

theorem sound_forwardSource {env : BrainEnv} {routing next : Routing} (sound : Sound routing)
    (stepped : routing.step env .forwardSource = some next) : Sound next := by
  obtain ⟨room, console, taken, rfl⟩ := step_eq_some stepped
  have follows := fun sameFlag => Console.followsState_frame sound.follows rfl sameFlag taken
  have room : routing.console.brainQueue.items.length < brainChannelBound :=
    of_decide_eq_true room
  obtain ⟨event, later, queued, rfl⟩ := Console.step_forwardSource taken
  have order := sound.order
  rw [queued] at order
  exact { sound with
    follows := follows rfl
    order := by
      simp only [observe, Mailbox.items_offer_of_room room, List.filterMap_append]
      rw [← order]
      cases isInput : inputEvent? event <;> simp [BrainInput.event?, isInput] }

theorem sound_wireMessage {env : BrainEnv} {routing next : Routing} {msg : Message}
    (sound : Sound routing) (stepped : routing.step env (.wireMessage msg) = some next) :
    Sound next := by
  obtain ⟨room, console, taken, rfl⟩ := step_eq_some stepped
  have follows := fun sameFlag => Console.followsState_frame sound.follows rfl sameFlag taken
  have room : routing.console.brainQueue.items.length < brainChannelBound :=
    of_decide_eq_true room
  cases taken
  exact { sound with
    follows := follows rfl
    order := by
      simp only [observe, Mailbox.items_offer_of_room room, List.filterMap_append]
      rw [← sound.order]
      simp [BrainInput.event?] }

/-- The brain takes an event when it has nothing else to do, so the flag tells
whether it forwards it. -/
theorem forwards_of_receive {env : BrainEnv} {routing : Routing} {input : BrainInput}
    {event : SourceEvent} {nowMs : Nat} (sound : Sound routing)
    (noActions : routing.console.actions = []) (noEffects : routing.console.effects = [])
    (isEvent : input.event? = some event) :
    routing.console.brain.forwards env input nowMs = decide (routing.changes % 2 = 1) := by
  have agree := sound.follows.agree noActions noEffects
  cases input with
  | wireMessage msg => cases isEvent
  | source sourceEvent =>
      have isInput : (inputEvent? sourceEvent).isSome := by
        rw [show inputEvent? sourceEvent = some event from isEvent]
        rfl
      rw [Brain.forwards_eq env _ isInput, ← sound.parity, agree, Console.remote]

theorem sound_receive {env : BrainEnv} {routing next : Routing} {nowMs : Nat}
    (sound : Sound routing) (stepped : routing.step env (.receive nowMs) = some next) :
    Sound next := by
  obtain ⟨_, console, taken, rfl⟩ := step_eq_some stepped
  have follows := Console.followsState_receive sound.follows taken
  obtain ⟨noActions, noEffects, input, brainQueue, received, rfl⟩ :=
    Console.step_receive taken
  have front := Mailbox.items_recv received
  have order := sound.order
  rw [front] at order
  exact { sound with
    follows := follows
    received := by
      intro verdict member
      simp only [observe, front, List.head?_cons, Option.bind_some, Option.any_some] at member
      rcases List.mem_append.mp member with earlier | added
      · exact sound.received verdict earlier
      · obtain ⟨event, isEvent, rfl⟩ := List.mem_map.mp added
        exact forwards_of_receive sound noActions noEffects (Option.mem_toList.mp isEvent)
    order := by
      simp only [observe, front, List.head?_cons, Option.bind_some]
      rw [← order]
      cases isEvent : input.event? <;> simp [isEvent] }

theorem sound_effect {env : BrainEnv} {routing next : Routing} (sound : Sound routing)
    (stepped : routing.step env .effect = some next) : Sound next := by
  obtain ⟨_, console, taken, rfl⟩ := step_eq_some stepped
  obtain ⟨follows, turns⟩ := Console.followsState_effect sound.follows taken
  obtain ⟨effect, effects, isNext, rfl⟩ := Console.step_effect taken
  obtain ⟨swallow, applied⟩ :=
    Console.apply_eq { routing.console with effects := effects } effect
  rw [applied] at follows turns ⊢
  exact { sound with
    follows := follows
    parity := by
      have turned : swallow = xor routing.console.swallow
          (routing.console.effects.head?.bind Effect.store?).isSome := turns
      rw [sound.parity] at turned
      exact turned.trans (xor_odd routing.changes _) }

theorem sound_step {env : BrainEnv} {routing next : Routing} {label : ConsoleLabel}
    (sound : Sound routing) (stepped : routing.step env label = some next) : Sound next := by
  cases label with
  | tapSend event => exact sound_tapSend sound stepped
  | tapReturn => exact sound_tapReturn sound stepped
  | forwardSource => exact sound_forwardSource sound stepped
  | wireMessage msg => exact sound_wireMessage sound stepped
  | receive nowMs => exact sound_receive sound stepped
  | effect => exact sound_effect sound stepped
  | perform =>
      obtain ⟨_, console, taken, rfl⟩ := step_eq_some stepped
      have follows := Console.followsState_perform sound.follows taken
      obtain ⟨_, _, _, _, rfl⟩ := Console.step_perform taken
      exact { sound with follows := follows }

/-! ## The decisions compared -/

/-- The event both decide about in their n-th decision is the same. -/
theorem sameEvent {routing : Routing} {index : Nat} {tap brain : Verdict}
    (sound : Sound routing) (isTap : routing.returned[index]? = some tap)
    (isBrain : routing.received[index]? = some brain) : tap.event = brain.event := by
  have inReturned : (routing.returned.map Verdict.event ++
      routing.translated.toList)[index]? = some tap.event := by
    rw [List.getElem?_append_left, List.getElem?_map, isTap, Option.map_some]
    rw [List.length_map]
    exact (List.getElem?_eq_some_iff.mp isTap).1
  rw [← sound.order, List.getElem?_append_left, List.getElem?_map, isBrain,
    Option.map_some, Option.some.injEq] at inReturned
  · exact inReturned.symm
  · rw [List.length_map]
    exact (List.getElem?_eq_some_iff.mp isBrain).1

/-- Exactly one side takes an event if control has changed an even number of
times between the two decisions. -/
theorem exactlyOne_iff {routing : Routing} (sound : Sound routing) :
    ExactlyOne routing ↔ ∀ (index : Nat) tap brain, routing.returned[index]? = some tap →
      routing.received[index]? = some brain → tap.changes % 2 = brain.changes % 2 := by
  refine forall_congr' fun index => forall_congr' fun tap => forall_congr' fun brain => ?_
  refine imp_congr_right fun isTap => imp_congr_right fun isBrain => ?_
  rw [and_iff_right (sameEvent sound isTap isBrain),
    sound.returned tap (List.mem_of_getElem? isTap),
    sound.received brain (List.mem_of_getElem? isBrain), ← decide_eq_not_odd,
    decide_eq_decide]
  omega

/-- A relation between the entries of two lists at the same index, when the first
list grows by one. -/
private theorem forall_getElem?_concat {α β : Type} {related : α → β → Prop}
    {items : List α} {others : List β} {last : α} :
    (∀ (index : Nat) item other, (items ++ [last])[index]? = some item →
      others[index]? = some other → related item other) ↔
      (∀ (index : Nat) item other, items[index]? = some item →
        others[index]? = some other → related item other) ∧
        ∀ other, others[items.length]? = some other → related last other := by
  constructor
  · intro all
    refine ⟨fun index item other isItem isOther => all index item other ?_ isOther,
      fun other isOther => all items.length last other ?_ isOther⟩
    · rw [List.getElem?_append_left (List.getElem?_eq_some_iff.mp isItem).1, isItem]
    · exact List.getElem?_concat_length
  · rintro ⟨earlier, atLast⟩ index item other isItem isOther
    by_cases inItems : index < items.length
    · rw [List.getElem?_append_left inItems] at isItem
      exact earlier index item other isItem isOther
    · rw [List.getElem?_append_right (Nat.le_of_not_lt inItems)] at isItem
      have atEnd : index = items.length := by
        have inLast := (List.getElem?_eq_some_iff.mp isItem).1
        rw [List.length_singleton] at inLast
        omega
      subst atEnd
      rw [Nat.sub_self] at isItem
      cases isItem
      exact atLast other isOther

theorem exactlyOne_step_iff {env : BrainEnv} {routing next : Routing} {label : ConsoleLabel}
    (sound : Sound routing) (exactlyOne : ExactlyOne routing)
    (stepped : routing.step env label = some next) :
    ExactlyOne next ↔ KeepsControl routing label := by
  rw [exactlyOne_iff (sound_step sound stepped)]
  rw [exactlyOne_iff sound] at exactlyOne
  obtain ⟨_, console, taken, rfl⟩ := step_eq_some stepped
  cases label with
  | tapSend | forwardSource | wireMessage | perform | effect =>
      exact iff_of_true exactlyOne trivial
  | tapReturn =>
      cases translated : routing.translated with
      | none =>
          simp only [observe, KeepsControl, translated, Option.toList_none, List.map_nil,
            List.append_nil, Option.isSome_none]
          exact iff_of_true exactlyOne nofun
      | some event =>
          simp only [observe, KeepsControl, translated, Option.toList_some, List.map_cons,
            List.map_nil, Option.isSome_some, true_imp_iff]
          rw [forall_getElem?_concat, and_iff_right exactlyOne]
          exact forall_congr' fun brain => imp_congr_right fun _ => eq_comm
  | receive nowMs =>
      have swapped : ∀ (received : List Verdict),
          (∀ (index : Nat) tap brain, routing.returned[index]? = some tap →
            received[index]? = some brain → tap.changes % 2 = brain.changes % 2) ↔
          ∀ (index : Nat) brain tap, received[index]? = some brain →
            routing.returned[index]? = some tap → tap.changes % 2 = brain.changes % 2 :=
        fun _ => ⟨fun all index brain tap isBrain isTap => all index tap brain isTap isBrain,
          fun all index tap brain isTap isBrain => all index brain tap isBrain isTap⟩
      cases front : routing.console.brainQueue.items.head?.bind BrainInput.event? with
      | none =>
          simp only [observe, KeepsControl, front, Option.toList_none, List.map_nil,
            List.append_nil, Option.isSome_none]
          exact iff_of_true exactlyOne nofun
      | some event =>
          simp only [observe, KeepsControl, front, Option.toList_some, List.map_cons,
            List.map_nil, Option.isSome_some, true_imp_iff]
          rw [swapped] at exactlyOne
          rw [swapped, forall_getElem?_concat, and_iff_right exactlyOne]

end Routing

/-- In every run without overflow, every event goes to exactly one machine if and
only if control changes an even number of times between the two decisions about
it. -/
theorem exactlyOne_iff_keepsControl (env : BrainEnv)
    (history : List (KeyTransition UInt16)) (labels : List ConsoleLabel) :
    Throughout (Routing.step env) Routing.ExactlyOne (.start env history) labels ↔
      Along (Routing.step env) Routing.KeepsControl (.start env history) labels :=
  throughout_iff_along (fun _ _ _ => Routing.sound_step)
    (fun _ _ _ => Routing.exactlyOne_step_iff) (Routing.sound_start env history)
    (fun _ _ _ isTap => by cases isTap)

/-! ## Keys around the transitions -/

/-- A key goes down behind a motion to the right edge that still is in the queue. -/
def keyBehindMotion : List ConsoleLabel :=
  [.tapSend { etype := EventType.mouseMoved, location := (1919, 300) }, .tapReturn,
    .tapSend { etype := EventType.keyDown }, .tapReturn, .forwardSource, .forwardSource,
    .forwardSource, .receive 100, .receive 100, .perform, .effect, .perform, .effect,
    .perform, .effect, .perform, .effect, .effect, .receive 101]

/-- A key goes down while a release of control still is in the queue. -/
def keyBehindRelease : List ConsoleLabel :=
  cross 100 ++ [.wireMessage (.releaseControl 300), .tapSend { etype := EventType.keyDown },
    .tapReturn, .forwardSource, .receive 200, .perform, .effect, .effect, .perform,
    .effect, .perform, .effect, .receive 201]

def Routing.verdicts (routing : Routing) (index : Nat) : Option Verdict × Option Verdict :=
  (routing.returned[index]?, routing.received[index]?)

theorem Routing.not_exactlyOne {routing : Routing} {index : Nat} {tap brain : Verdict}
    (verdicts : routing.verdicts index = (some tap, some brain))
    (same : tap.taken = brain.taken) : ¬ routing.ExactlyOne := by
  intro exactlyOne
  obtain ⟨isTap, isBrain⟩ := Prod.mk.inj verdicts
  have differ := (exactlyOne index tap brain isTap isBrain).2
  rw [same] at differ
  exact Bool.not_eq_not.mpr rfl differ

/-- The first key goes to both machines and the second to neither. -/
theorem not_exactlyOne_aroundTransitions :
    ∃ both neither,
      exec (Routing.step singleDisplay) (.start singleDisplay []) keyBehindMotion =
        some both ∧
      exec (Routing.step singleDisplay) (.start singleDisplay []) keyBehindRelease =
        some neither ∧
      ¬ both.ExactlyOne ∧ ¬ neither.ExactlyOne := by
  have behindMotion : (exec (Routing.step singleDisplay) (.start singleDisplay [])
      keyBehindMotion).map (fun routing => routing.verdicts 1) =
        some (some ⟨.key 4 .down {}, true, 0⟩, some ⟨.key 4 .down {}, true, 1⟩) := by
    decide
  have behindRelease : (exec (Routing.step singleDisplay) (.start singleDisplay [])
      keyBehindRelease).map (fun routing => routing.verdicts 1) =
        some (some ⟨.key 4 .down {}, false, 1⟩, some ⟨.key 4 .down {}, false, 2⟩) := by
    decide
  obtain ⟨both, reachedBoth, bothVerdicts⟩ := Option.map_eq_some_iff.mp behindMotion
  obtain ⟨neither, reachedNeither, neitherVerdicts⟩ :=
    Option.map_eq_some_iff.mp behindRelease
  exact ⟨both, neither, reachedBoth, reachedNeither,
    Routing.not_exactlyOne bothVerdicts rfl, Routing.not_exactlyOne neitherVerdicts rfl⟩

end Kmwarp.Server
