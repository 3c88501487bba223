import Kmwarp.Client.StuckKeys
import Kmwarp.Core.Scancode

/-!
# The Windows input sink

Every call of the sink becomes at most two requests to Windows.  A request that Windows
refuses is logged and forgotten.  What a request does to the devices is read back from its
flags, as Windows does.
-/

namespace Kmwarp.Client

open Foundation Wire

namespace MouseEventFlag

def move : UInt32 := 0x0001

def leftDown : UInt32 := 0x0002

def leftUp : UInt32 := 0x0004

def rightDown : UInt32 := 0x0008

def rightUp : UInt32 := 0x0010

def middleDown : UInt32 := 0x0020

def middleUp : UInt32 := 0x0040

def xDown : UInt32 := 0x0080

def xUp : UInt32 := 0x0100

def wheel : UInt32 := 0x0800

def hWheel : UInt32 := 0x1000

end MouseEventFlag

namespace KeyEventFlag

def extendedKey : UInt32 := 0x0001

def keyUp : UInt32 := 0x0002

def scancode : UInt32 := 0x0008

end KeyEventFlag

structure MouseInput where
  dx : Int := 0
  dy : Int := 0
  mouseData : UInt32 := 0
  dwFlags : UInt32
  time : UInt32 := 0
  dwExtraInfo : UInt64 := 0
deriving DecidableEq

structure KeybdInput where
  wVk : UInt16 := 0
  wScan : UInt16
  dwFlags : UInt32
  time : UInt32 := 0
  dwExtraInfo : UInt64 := 0
deriving DecidableEq

/-- An `INPUT` given to `SendInput`, or a call of `SetCursorPos`. -/
inductive Request where
  | mouseInput (input : MouseInput)
  | keybdInput (input : KeybdInput)
  | setCursorPos (x y : Int)
deriving DecidableEq

/-! ## The sink -/

def wheelDelta : Int := 120

def xButton1Flag : UInt32 := 0x0001

def xButton2Flag : UInt32 := 0x0002

def saturatingMul (value factor : Int) : Int :=
  max (-2147483648) (min (value * factor) 2147483647)

/-- The amount of a wheel request, as the `u32` it is stored in. -/
def wheelData (clicks : Int16) : UInt32 :=
  (Int32.ofInt (saturatingMul clicks.toInt wheelDelta)).toUInt32

/-- The flags and the data of a button request. -/
def buttonFlags (btn : MouseButton) (state : KeyState) : UInt32 × UInt32 :=
  let down := state == .down
  match btn with
  | .left => (if down then MouseEventFlag.leftDown else MouseEventFlag.leftUp, 0)
  | .right => (if down then MouseEventFlag.rightDown else MouseEventFlag.rightUp, 0)
  | .middle => (if down then MouseEventFlag.middleDown else MouseEventFlag.middleUp, 0)
  | .x1 => (if down then MouseEventFlag.xDown else MouseEventFlag.xUp, xButton1Flag)
  | .x2 => (if down then MouseEventFlag.xDown else MouseEventFlag.xUp, xButton2Flag)

namespace WinInputSink

def injectMouseRel (dx dy : Int) : List Request :=
  [.mouseInput { dx := dx, dy := dy, dwFlags := MouseEventFlag.move }]

def injectMouseButton (btn : MouseButton) (state : KeyState) : List Request :=
  let (flag, data) := buttonFlags btn state
  [.mouseInput { mouseData := data, dwFlags := flag }]

/-- One request for each axis that moves, the vertical one first. -/
def injectMouseWheel (dx dy : Int16) : List Request :=
  (if dy ≠ 0 then
    [.mouseInput { mouseData := wheelData dy, dwFlags := MouseEventFlag.wheel }]
  else []) ++
  if dx ≠ 0 then
    [.mouseInput { mouseData := wheelData dx, dwFlags := MouseEventFlag.hWheel }]
  else []

/-- The request of a scancode; the virtual key is ignored under `KEYEVENTF_SCANCODE`. -/
def keybdInput (sc : WinScancode) (state : KeyState) : KeybdInput :=
  let flags := KeyEventFlag.scancode
  let flags := if sc.extended then flags ||| KeyEventFlag.extendedKey else flags
  let flags := if state = .up then flags ||| KeyEventFlag.keyUp else flags
  { wScan := sc.code, dwFlags := flags }

/-- The modifier mask is left alone; a usage without a scancode is dropped. -/
def injectKey (hid : UInt16) (state : KeyState) (_mods : ModMask) : List Request :=
  match hidToWindowsScancode hid with
  | none => []
  | some sc => [.keybdInput (keybdInput sc state)]

def warpCursorAbs (x y : Int) : List Request :=
  [.setCursorPos x y]

/-- Hiding and showing the cursor is left to the server. -/
def perform : SinkCall → List Request
  | .injectMouseRel dx dy => injectMouseRel dx dy
  | .injectMouseButton btn state => injectMouseButton btn state
  | .injectMouseWheel dx dy => injectMouseWheel dx dy
  | .injectKey hid state mods => injectKey hid state mods
  | .warpCursorAbs x y => warpCursorAbs x y
  | .hideCursor | .showCursor => []

end WinInputSink

/-! ## What Windows makes of a request -/

inductive WheelAxis where
  | vertical
  | horizontal
deriving DecidableEq

/-- What happens to a device.  Wheel amounts are in units of a 120th of a click. -/
inductive DeviceEvent where
  | moveBy (dx dy : Int)
  | button (transition : KeyTransition MouseButton)
  | wheel (axis : WheelAxis) (amount : Int)
  | key (transition : KeyTransition WinScancode)
  | cursorTo (x y : Int)
deriving DecidableEq

/-- The events of a flag, if it is set. -/
def whenSet (flags flag : UInt32) (events : List DeviceEvent) : List DeviceEvent :=
  if flags &&& flag ≠ 0 then events else []

theorem whenSet_of_set {flags flag : UInt32} (set : flags &&& flag ≠ 0)
    (events : List DeviceEvent) : whenSet flags flag events = events :=
  if_pos set

theorem whenSet_of_clear {flags flag : UInt32} (clear : flags &&& flag = 0)
    (events : List DeviceEvent) : whenSet flags flag events = [] :=
  if_neg (not_not_intro clear)

def xButtonEvents (mouseData : UInt32) (down : Bool) : List DeviceEvent :=
  whenSet mouseData xButton1Flag [.button ⟨.x1, down⟩] ++
    whenSet mouseData xButton2Flag [.button ⟨.x2, down⟩]

/-- Each flag stands for an event of its own. -/
def MouseInput.deviceEvents (input : MouseInput) : List DeviceEvent :=
  whenSet input.dwFlags MouseEventFlag.move [.moveBy input.dx input.dy] ++
  whenSet input.dwFlags MouseEventFlag.leftDown [.button ⟨.left, true⟩] ++
  whenSet input.dwFlags MouseEventFlag.leftUp [.button ⟨.left, false⟩] ++
  whenSet input.dwFlags MouseEventFlag.rightDown [.button ⟨.right, true⟩] ++
  whenSet input.dwFlags MouseEventFlag.rightUp [.button ⟨.right, false⟩] ++
  whenSet input.dwFlags MouseEventFlag.middleDown [.button ⟨.middle, true⟩] ++
  whenSet input.dwFlags MouseEventFlag.middleUp [.button ⟨.middle, false⟩] ++
  whenSet input.dwFlags MouseEventFlag.xDown (xButtonEvents input.mouseData true) ++
  whenSet input.dwFlags MouseEventFlag.xUp (xButtonEvents input.mouseData false) ++
  whenSet input.dwFlags MouseEventFlag.wheel
    [.wheel .vertical input.mouseData.toInt32.toInt] ++
  whenSet input.dwFlags MouseEventFlag.hWheel
    [.wheel .horizontal input.mouseData.toInt32.toInt]

/-- The scancode counts only under its flag; without it the virtual key would. -/
def KeybdInput.transition? (input : KeybdInput) : Option (KeyTransition WinScancode) :=
  if input.dwFlags &&& KeyEventFlag.scancode ≠ 0 then
    some ⟨⟨input.wScan, input.dwFlags &&& KeyEventFlag.extendedKey != 0⟩,
      input.dwFlags &&& KeyEventFlag.keyUp == 0⟩
  else none

namespace Request

/-- The press or release of a scancode that is asked for. -/
def transition? : Request → Option (KeyTransition WinScancode)
  | .keybdInput input => input.transition?
  | .mouseInput _ | .setCursorPos _ _ => none

def deviceEvents : Request → List DeviceEvent
  | .mouseInput input => input.deviceEvents
  | .keybdInput input => input.transition?.toList.map .key
  | .setCursorPos x y => [.cursorTo x y]

end Request

/-- The presses and releases of scancodes in a sequence of requests. -/
def scancodeLog (requests : List Request) : List (KeyTransition WinScancode) :=
  requests.filterMap Request.transition?

/-! ## What a call means -/

/-- A wheel event for each axis that moves. -/
def wheelEvents (dx dy : Int16) : List DeviceEvent :=
  (if dy ≠ 0 then [.wheel .vertical (120 * dy.toInt)] else []) ++
    if dx ≠ 0 then [.wheel .horizontal (120 * dx.toInt)] else []

/-- The press or release of the scancode of a usage. -/
def keyEvents (hid : UInt16) (state : KeyState) : List DeviceEvent :=
  (hidToWindowsScancode hid).toList.map fun scancode => .key ⟨scancode, state.isDown⟩

/-- What a caller of the sink expects. -/
def callEvents : SinkCall → List DeviceEvent
  | .injectMouseRel dx dy => [.moveBy dx dy]
  | .injectMouseButton btn state => [.button ⟨btn, state.isDown⟩]
  | .injectMouseWheel dx dy => wheelEvents dx dy
  | .injectKey hid state _ => keyEvents hid state
  | .warpCursorAbs x y => [.cursorTo x y]
  | .hideCursor | .showCursor => []

/-- The amount survives its storage as a `u32`; no number of clicks saturates it. -/
theorem toInt_wheelData (clicks : Int16) :
    (wheelData clicks).toInt32.toInt = 120 * clicks.toInt := by
  have low := clicks.le_toInt
  have high := clicks.toInt_lt
  have exact : saturatingMul clicks.toInt wheelDelta = 120 * clicks.toInt := by
    simp only [saturatingMul, wheelDelta]
    omega
  rw [wheelData, exact, Int32.toInt32_toUInt32, Int32.toInt_ofInt_of_le] <;> omega

/-- The request for a key is read back as its press or release. -/
theorem transition?_keybdInput (sc : WinScancode) (state : KeyState) :
    (WinInputSink.keybdInput sc state).transition? = some ⟨sc, state.isDown⟩ := by
  obtain ⟨code, extended⟩ := sc
  cases extended <;> cases state <;>
    simp +decide [WinInputSink.keybdInput, KeybdInput.transition?]

/-- Windows reads back what the sink was asked for. -/
theorem deviceEvents_perform (call : SinkCall) :
    (WinInputSink.perform call).flatMap Request.deviceEvents = callEvents call := by
  cases call with
  | injectMouseRel dx dy =>
      have move : (Request.mouseInput
          { dx := dx, dy := dy, dwFlags := MouseEventFlag.move }).deviceEvents =
            [.moveBy dx dy] := by
        simp (disch := decide) only [Request.deviceEvents, MouseInput.deviceEvents,
          whenSet_of_set, whenSet_of_clear, List.append_nil]
      exact (List.append_nil _).trans move
  | injectMouseButton btn state => cases btn <;> cases state <;> decide
  | injectMouseWheel dx dy =>
      have wheel : ∀ data, (Request.mouseInput
          { mouseData := data, dwFlags := MouseEventFlag.wheel }).deviceEvents =
            [.wheel .vertical data.toInt32.toInt] := by
        intro data
        simp (disch := decide) only [Request.deviceEvents, MouseInput.deviceEvents,
          whenSet_of_set, whenSet_of_clear, List.nil_append, List.append_nil]
      have hWheel : ∀ data, (Request.mouseInput
          { mouseData := data, dwFlags := MouseEventFlag.hWheel }).deviceEvents =
            [.wheel .horizontal data.toInt32.toInt] := by
        intro data
        simp (disch := decide) only [Request.deviceEvents, MouseInput.deviceEvents,
          whenSet_of_set, whenSet_of_clear, List.nil_append, List.append_nil]
      by_cases vertical : dy = 0 <;> by_cases horizontal : dx = 0 <;>
        simp [WinInputSink.perform, WinInputSink.injectMouseWheel, callEvents, wheelEvents,
          vertical, horizontal, wheel, hWheel, toInt_wheelData]
  | injectKey hid state mods =>
      rw [WinInputSink.perform, WinInputSink.injectKey, callEvents, keyEvents]
      cases hidToWindowsScancode hid with
      | none => rfl
      | some sc => simp [Request.deviceEvents, transition?_keybdInput]
  | warpCursorAbs x y => rfl
  | hideCursor | showCursor => rfl

theorem deviceEvents_performAll (calls : List SinkCall) :
    (calls.flatMap WinInputSink.perform).flatMap Request.deviceEvents =
      calls.flatMap callEvents := by
  rw [List.flatMap_assoc]
  exact congrArg (calls.flatMap ·) (funext deviceEvents_perform)

/-! ## The keys of Windows -/

/-- The keys of the sink reach Windows under their scancodes. -/
theorem scancodeLog_performAll (calls : List SinkCall) :
    scancodeLog (calls.flatMap WinInputSink.perform) =
      renameLog hidToWindowsScancode (callLog calls) := by
  induction calls with
  | nil => rfl
  | cons call calls ih =>
      have one : scancodeLog (WinInputSink.perform call) =
          renameLog hidToWindowsScancode (callLog [call]) := by
        cases call with
        | injectMouseButton btn state => rfl
        | injectMouseWheel dx dy =>
            rw [WinInputSink.perform, WinInputSink.injectMouseWheel]
            split <;> split <;> rfl
        | injectKey hid state mods =>
            rw [WinInputSink.perform, WinInputSink.injectKey]
            cases found : hidToWindowsScancode hid with
            | none => simp [scancodeLog, callLog, callTransition, renameLog, found]
            | some sc =>
                simp [scancodeLog, Request.transition?, transition?_keybdInput, callLog,
                  callTransition, renameLog, found]
        | injectMouseRel | warpCursorAbs | hideCursor | showCursor => rfl
      have both : callLog (call :: calls) = callLog [call] ++ callLog calls :=
        callLog_append [call] calls
      rw [List.flatMap_cons, scancodeLog, List.filterMap_append, both, renameLog_append,
        ← one, ← ih]
      rfl

/-- A scancode is down on Windows when the sink holds its usage down. -/
theorem pressed_scancodeLog_iff (calls : List SinkCall) (scancode : WinScancode) :
    Pressed (scancodeLog (calls.flatMap WinInputSink.perform)) scancode ↔
      ∃ hid, Pressed (callLog calls) hid ∧ hidToWindowsScancode hid = some scancode := by
  rw [scancodeLog_performAll]
  exact pressed_renameLog_iff hidToWindowsScancode_injective _ scancode

/-! ## Requests that Windows refuses -/

/-- The presses and releases asked for, and whether Windows accepted each. -/
def attempts (issued : List (Request × Bool)) : List (KeyTransition WinScancode × Bool) :=
  issued.filterMap fun attempt => attempt.1.transition?.map (·, attempt.2)

theorem map_fst_attempts (issued : List (Request × Bool)) :
    (attempts issued).map Prod.fst = scancodeLog (issued.map Prod.fst) := by
  simp only [attempts, scancodeLog, List.map_filterMap, List.filterMap_map, Option.map_map]
  refine congrArg (List.filterMap · issued) (funext fun attempt => ?_)
  simp [Function.comp_def]

/-- The scancodes that are down on Windows. -/
def DownOnWindows (issued : List (Request × Bool)) (scancode : WinScancode) : Prop :=
  Pressed (takenLog (attempts issued)) scancode

/-- The last request for the scancode is its release, and Windows refused it. -/
def ReleaseRefused (issued : List (Request × Bool)) (scancode : WinScancode) : Prop :=
  ∃ before release after, issued = before ++ (release, false) :: after ∧
    release.transition? = some ⟨scancode, false⟩ ∧
    ∀ attempt ∈ after, ∀ transition, attempt.1.transition? = some transition →
      transition.key ≠ scancode

theorem releaseRefused_of_attempts {issued : List (Request × Bool)} {scancode : WinScancode}
    (refused : ∃ before after, attempts issued = before ++ (⟨scancode, false⟩, false) :: after ∧
      ∀ attempt ∈ after, attempt.1.key ≠ scancode) :
    ReleaseRefused issued scancode := by
  obtain ⟨before, after, split, alone⟩ := refused
  obtain ⟨first, rest, rfl, _, isRest⟩ := List.filterMap_eq_append_iff.mp split
  obtain ⟨silent, attempt, last, rfl, isSilent, isAttempt, isLast⟩ :=
    List.filterMap_eq_cons_iff.mp isRest
  obtain ⟨release, accepted⟩ := attempt
  obtain ⟨transition, isRelease, same⟩ := Option.map_eq_some_iff.mp isAttempt
  cases same
  refine ⟨first ++ silent, release, last, by simp, isRelease, ?_⟩
  intro attempt member later isLater
  refine alone (later, attempt.2) ?_
  rw [← isLast]
  exact List.mem_filterMap.mpr ⟨attempt, member, by simp [isLater]⟩

/-- Windows holds the keys that the client tracks.  Whatever frames have been dispatched,
the scancodes that its requests leave pressed are those of the tracked keys; and once the
guard is dropped, a scancode that is still down is one whose last request was a release
that Windows refused. -/
theorem windows_holds_tracked_keys (env : InjectorEnv)
    (source : List (Except ClientError Message)) (echoGuard : EchoGuard)
    (txOut : Mailbox outboundChannelBound Message) (active : Bool)
    (statusTx : Option ClientStatus) :
    let finished := injectorLoopWithSource env source echoGuard txOut active statusTx
    (∀ scancode,
      Pressed (scancodeLog (finished.session.guard.sink.flatMap WinInputSink.perform)) scancode ↔
        ∃ hid ∈ finished.session.guard.held, hidToWindowsScancode hid = some scancode) ∧
      ∀ issued : List (Request × Bool),
        issued.map Prod.fst = finished.dropped.sink.flatMap WinInputSink.perform →
        ∀ scancode, DownOnWindows issued scancode → ReleaseRefused issued scancode := by
  intro finished
  let start : Session := ⟨.new echoGuard, txOut, active, statusTx⟩
  have fresh : start.guard.held.Tracks (callLog start.guard.sink) := HeldKeys.tracks_new
  obtain ⟨_, tracked, _⟩ := injectorLoop_spec env source fresh
  refine ⟨fun scancode => ?_, fun issued isIssued scancode down => ?_⟩
  · rw [pressed_scancodeLog_iff]
    exact exists_congr fun hid => and_congr_left fun _ => (tracked hid).symm
  · refine releaseRefused_of_attempts (refused_release_of_pressed down ?_)
    rw [map_fst_attempts, isIssued, pressed_scancodeLog_iff]
    rintro ⟨hid, pressed, _⟩
    have dropped : finished.dropped.sink = _ := sink_drop finished.session.guard
    rw [dropped, callLog_append, callLog_ups, pressed_append_releases, HeldKeys.mem_drain]
      at pressed
    exact pressed.2 ((tracked hid).mpr pressed.1)

/-- The requests for left Shift, whose release Windows refuses. -/
def refusedShift : List (Request × Bool) :=
  [(.keybdInput (WinInputSink.keybdInput ⟨0x2A, false⟩ .down), true),
    (.keybdInput (WinInputSink.keybdInput ⟨0x2A, false⟩ .up), false)]

/-- Shift stays down, and no one will release it. -/
theorem windows_holds_tracked_keys_refusedShift :
    DownOnWindows refusedShift ⟨0x2A, false⟩ ∧ ReleaseRefused refusedShift ⟨0x2A, false⟩ := by
  have down : DownOnWindows refusedShift ⟨0x2A, false⟩ := by
    unfold DownOnWindows
    decide
  have requests : refusedShift.map Prod.fst =
      (injectorLoopWithSource ⟨fun _ => .replicate 32 0, fun _ _ => true, "peer"⟩
        [.ok (.keyEvent Usage.leftShift KeyStateCode.down 1)] {} .empty false none
          ).dropped.sink.flatMap WinInputSink.perform := by
    decide
  exact ⟨down, (windows_holds_tracked_keys _ _ _ _ _ _).2 refusedShift requests _ down⟩

end Kmwarp.Client
