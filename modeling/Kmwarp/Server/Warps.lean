import Kmwarp.Foundation.Runs
import Kmwarp.Server.Brain
import Mathlib.Data.List.Pairwise

/-!
# Warps of the cursor

The machine knows one screen.  The brain reports to it a cursor at the right edge of any
display, and moves its warps to the display whose right edge was reported last.
-/

namespace Kmwarp.Server

open Foundation Wire

/-! ## Arrangements of displays -/

def DisplayRect.bottom (rect : DisplayRect) : Int :=
  rect.originY + rect.height

theorem DisplayRect.contains_iff {rect : DisplayRect} {x y : Int} :
    rect.contains x y = true ↔
      (rect.originX ≤ x ∧ x < rect.right) ∧ rect.originY ≤ y ∧ y < rect.bottom := by
  simp only [contains, right, bottom, Bool.and_eq_true, decide_eq_true_eq]
  constructor
  · rintro ⟨⟨⟨left, right⟩, top⟩, bottom⟩
    exact ⟨⟨left, right⟩, top, bottom⟩
  · rintro ⟨⟨left, right⟩, top, bottom⟩
    exact ⟨⟨⟨left, right⟩, top⟩, bottom⟩

def clampToScreenPx (extent : Int) : UInt16 :=
  UInt16.ofNat (min (max extent 1) 65535).toNat

/-- The extent of all displays, or of the main display when none is active. -/
def queryScreenPx (displays : List DisplayRect) (mainDisplay : DisplayRect) :
    UInt16 × UInt16 :=
  if displays = [] then
    (clampToScreenPx mainDisplay.right, clampToScreenPx mainDisplay.bottom)
  else
    (clampToScreenPx (displays.foldl (fun most rect => max most rect.right) 0),
      clampToScreenPx (displays.foldl (fun most rect => max most rect.bottom) 0))

/-- No position is on both displays. -/
def DisplayRect.Apart (first second : DisplayRect) : Prop :=
  ∀ x y, first.contains x y = true → second.contains x y = false

instance : Std.Symm DisplayRect.Apart where
  symm _ _ apart x y inSecond :=
    Bool.eq_false_iff.mpr fun inFirst =>
      Bool.false_ne_true ((apart x y inFirst).symm.trans inSecond)

/-- Active displays that do not overlap, each at least 6 px wide. -/
structure Arrangement where
  displays : List DisplayRect
  mainDisplay : DisplayRect
  apart : displays.Pairwise DisplayRect.Apart
  wide : ∀ rect ∈ displays, 6 ≤ rect.width

/-- The brain is started with the extent and the displays of one arrangement. -/
def Arrangement.env (arrangement : Arrangement) (remote : String) (modRemap : ModRemap) :
    BrainEnv where
  remote := remote
  screenPx := queryScreenPx arrangement.displays arrangement.mainDisplay
  displays := arrangement.displays
  modRemap := modRemap

theorem one_le_clampToScreenPx (extent : Int) : 1 ≤ (clampToScreenPx extent).toNat := by
  rw [clampToScreenPx, UInt16.toNat_ofNat']
  omega

theorem mem_of_displayContaining {displays : List DisplayRect} {rect : DisplayRect}
    {x y : Int} (found : displayContaining displays x y = some rect) :
    rect ∈ displays ∧ rect.contains x y = true := by
  rw [displayContaining] at found
  have inside := List.find?_some found
  exact ⟨List.mem_of_find?_eq_some found, inside⟩

namespace Arrangement

variable (arrangement : Arrangement) (remote : String) (modRemap : ModRemap)

theorem one_le_globalRight : 1 ≤ (arrangement.env remote modRemap).globalRight := by
  have extent : 1 ≤ (queryScreenPx arrangement.displays arrangement.mainDisplay).1.toNat := by
    rw [queryScreenPx]
    split
    · exact one_le_clampToScreenPx _
    · exact one_le_clampToScreenPx _
  exact Int.ofNat_le.mpr extent

/-- A position is on one display at most. -/
theorem displayContaining_eq {rect : DisplayRect} {x y : Int}
    (member : rect ∈ arrangement.displays) (inside : rect.contains x y = true) :
    displayContaining arrangement.displays x y = some rect := by
  cases found : displayContaining arrangement.displays x y with
  | none =>
      have absent := List.find?_eq_none.mp found rect member
      exact absurd inside absent
  | some other =>
      obtain ⟨isMember, isInside⟩ := mem_of_displayContaining found
      by_contra differ
      have distinct : rect ≠ other := fun same => differ (by rw [same])
      have outside := arrangement.apart.forall member isMember distinct x y inside
      rw [isInside] at outside
      cases outside

end Arrangement

/-! ## Targets of one step -/

def Effect.warp? : Effect → Option (Int × Int)
  | .warpCursorAbs x y => some (x, y)
  | _ => none

def actionWarp? : Action → Option (Int × Int)
  | .warpLocalCursor x y => some (x, y)
  | _ => none

/-- The targets of the warps in a list of effects. -/
def warps (effects : List Effect) : List (Int × Int) :=
  effects.filterMap Effect.warp?

theorem warps_executeAction (remote : String) (modRemap : ModRemap) (held : HeldKeys)
    (action : Action) :
    warps (executeAction remote modRemap held action).2 = (actionWarp? action).toList := by
  have drain := @filterMap_drain _ Effect.warp? (fun _ => rfl) held
  cases action <;> simp [executeAction, warps, Effect.warp?, actionWarp?, drain]

/-- Executing actions performs their warps and leaves the home display alone. -/
theorem warps_performAll (env : BrainEnv) (brain : Brain) (actions : List Action) :
    warps (brain.performAll env actions).2 = actions.filterMap actionWarp? ∧
      (brain.performAll env actions).1.homeDisplayRight = brain.homeDisplayRight := by
  induction actions generalizing brain with
  | nil => exact ⟨rfl, rfl⟩
  | cons action actions ih =>
      obtain ⟨later, home⟩ := ih (brain.perform env action).1
      have first := warps_executeAction env.remote env.modRemap brain.held action
      refine ⟨?_, home⟩
      rw [Brain.performAll, warps, List.filterMap_append, List.filterMap_cons]
      simp only [warps] at first later
      rw [later, Brain.perform, first]
      cases actionWarp? action <;> rfl

/-- The machine's configuration on the screen of an environment. -/
def BrainEnv.cfg (env : BrainEnv) : EdgeConfig :=
  { localScreenW := env.screenPx.1.toUInt32, localScreenH := env.screenPx.2.toUInt32 }

theorem asI32_localScreenW (env : BrainEnv) :
    asI32 env.cfg.localScreenW = env.globalRight := by
  have small : 2 * env.screenPx.1.toUInt32.toBitVec.toNat < 2 ^ 32 := by
    have bound := env.screenPx.1.toNat_lt
    simp
    omega
  rw [asI32]
  exact (BitVec.toInt_eq_toNat_of_lt small).trans (by simp [BrainEnv.globalRight])

theorem globalRight_bounds (env : BrainEnv) :
    0 ≤ env.globalRight ∧ env.globalRight ≤ 65535 := by
  have bound := env.screenPx.1.toNat_lt
  rw [BrainEnv.globalRight]
  omega

/-- The position is at the right edge of the display it is on, or beyond all displays. -/
def BrainEnv.triggers (env : BrainEnv) (x y : Int) : Bool :=
  match displayContaining env.displays x y with
  | some rect => saturateI32 rect.right - 1 ≤ x
  | none => env.globalRight ≤ x

namespace Brain

variable {env : BrainEnv} {brain : Brain}

/-- A cursor position crosses exactly if it triggers, in local control and after the
cooldown. -/
theorem crosses_cursorAt (cfg : brain.sm.cfg = env.cfg) (wide : 1 ≤ env.globalRight)
    (x y : Int) (nowMs : Nat) :
    brain.crosses env (.source (.cursorAt x y)) nowMs =
      (decide (brain.sm.state = .localActive) && brain.sm.cooldownElapsed nowMs &&
        env.triggers x y) := by
  have width : asI32 brain.sm.cfg.localScreenW = env.globalRight := by
    rw [cfg, asI32_localScreenW]
  rw [crosses, BrainEnv.triggers, width]
  cases found : displayContaining env.displays x y with
  | none => simp only [smInput, found]
  | some rect =>
      by_cases edge : saturateI32 rect.right - 1 ≤ x
      · simp [smInput, found, edge]
      · have notBeyond : ¬ env.globalRight ≤ 0 := by omega
        simp [smInput, found, edge, notBeyond]

/-- The home display after a cursor position. -/
theorem home_smInput (x y : Int) :
    (brain.smInput env (.source (.cursorAt x y))).1.homeDisplayRight =
      match displayContaining env.displays x y with
      | some rect =>
          if saturateI32 rect.right - 1 ≤ x then saturateI32 rect.right
          else brain.homeDisplayRight
      | none => brain.homeDisplayRight := by
  cases found : displayContaining env.displays x y with
  | none => simp only [smInput, found]
  | some rect =>
      by_cases edge : saturateI32 rect.right - 1 ≤ x
      · simp only [smInput, found, if_pos edge]
      · simp only [smInput, found, if_neg edge]

/-- The home display changes where the input is rewritten, the configuration nowhere. -/
theorem frame_step (env : BrainEnv) (brain : Brain) (input : BrainInput) (nowMs : Nat) :
    (brain.step env input nowMs).1.sm.cfg = brain.sm.cfg ∧
      (brain.step env input nowMs).1.homeDisplayRight =
        (brain.smInput env input).1.homeDisplayRight := by
  rw [step, sm_performAll, (warps_performAll _ _ _).2]
  cases input with
  | wireMessage msg =>
      rw [receive_wireMessage]
      rcases brain.sm.onWireMessage_cases msg nowMs with ⟨_, _, _, stepped⟩ | stepped
      · rw [stepped]
        exact ⟨rfl, rfl⟩
      · rw [stepped]
        exact ⟨rfl, rfl⟩
  | source event =>
      obtain ⟨home, reported, rewritten, _⟩ := brain.smInput_source env event
      rw [receive_source rewritten, rewritten]
      rcases brain.sm.onLocalEvent_cases reported nowMs with
        ⟨_, _, _, _, _, _, stepped⟩ | ⟨_, _, _, stepped⟩ | ⟨_, stepped⟩
      · rw [stepped]
        exact ⟨rfl, rfl⟩
      · rw [stepped]
        exact ⟨rfl, rfl⟩
      · rw [stepped]
        exact ⟨rfl, rfl⟩

/-- A crossing warps five columns back from the right edge of the home display. -/
theorem warps_cursorAt (cfg : brain.sm.cfg = env.cfg) (x y : Int) (nowMs : Nat) :
    warps (brain.step env (.source (.cursorAt x y)) nowMs).2 =
      if brain.crosses env (.source (.cursorAt x y)) nowMs then
        [(wrapI32 ((brain.smInput env (.source (.cursorAt x y))).1.homeDisplayRight - 5), y)]
      else [] := by
  have crossesIff := brain.crosses_iff env (.source (.cursorAt x y)) nowMs
  obtain ⟨home, reported, rewritten, origin⟩ := brain.smInput_source env (.cursorAt x y)
  obtain ⟨reportedX, rfl⟩ : ∃ reportedX, reported = .cursorAt reportedX y := by
    rcases origin with same | ⟨_, _, reportedX, ⟨⟩, same⟩
    · exact ⟨x, same⟩
    · exact ⟨reportedX, same⟩
  rw [step, sm_performAll, receive_source rewritten] at crossesIff
  rw [step, (warps_performAll _ _ _).1, receive_source rewritten, rewritten]
  rcases brain.sm.onLocalEvent_cases (.cursorAt reportedX y) nowMs with
    ⟨_, _, ⟨⟩, wasLocal, _, _, stepped⟩ | ⟨_, converted, _, _⟩ | ⟨_, stepped⟩
  · rw [stepped] at crossesIff ⊢
    rw [if_pos (crossesIff.mpr ⟨wasLocal, rfl⟩)]
    have offset : env.globalRight - saturatingSub env.globalRight 5 = 5 := by
      have bounds := globalRight_bounds env
      simp only [saturatingSub, saturateI32]
      omega
    have backWarp : env.cfg.backWarpPx.toInt = 5 := rfl
    simp only [List.map_cons, List.map_nil, rewriteWarp, cfg, asI32_localScreenW, backWarp,
      offset]
    rfl
  · cases converted
  · rw [stepped] at crossesIff ⊢
    have stays : ¬ brain.crosses env (.source (.cursorAt x y)) nowMs = true := by
      intro crosses
      obtain ⟨wasLocal, isRemote⟩ := crossesIff.mp crosses
      have sameState : brain.sm.state = .remoteActive := isRemote
      rw [wasLocal] at sameState
      cases sameState
    rw [if_neg stays]
    rfl

/-- A return warps to the last column before the right edge of the home display. -/
theorem warps_releaseControl (cfg : brain.sm.cfg = env.cfg) (exitY : UInt16) (nowMs : Nat) :
    warps (brain.step env (.wireMessage (.releaseControl exitY)) nowMs).2 =
      if brain.sm.state = .remoteActive then
        [(wrapI32 (brain.homeDisplayRight - 1), (exitY.toNat : Int))]
      else [] := by
  rw [step, (warps_performAll _ _ _).1, receive_wireMessage]
  have offset : env.globalRight - saturatingSub env.globalRight 1 = 1 := by
    have bounds := globalRight_bounds env
    simp only [saturatingSub, saturateI32]
    omega
  cases isState : brain.sm.state with
  | localActive => simp [StateMachine.onWireMessage, isState]
  | remoteActive =>
      simp only [StateMachine.onWireMessage, isState, ne_eq, not_true_eq_false, if_false,
        List.map_cons, List.map_nil, rewriteWarp, cfg, asI32_localScreenW, offset]
      rfl

theorem warps_of_turn {next : Brain} {input : BrainInput} {effects : List Effect}
    (turn : BrainTurn env brain input next effects)
    (notCursor : ∀ x y, input ≠ .source (.cursorAt x y))
    (notRelease : ∀ exitY, input ≠ .wireMessage (.releaseControl exitY)) :
    warps effects = [] := by
  cases turn with
  | crossing => exact absurd rfl (notCursor _ _)
  | forwarding => rfl
  | leaving => exact absurd rfl (notRelease _)
  | silent => rfl

end Brain

/-! ## Runs -/

/-- A warp that has been executed, and the display the cursor had crossed from. -/
structure Warp where
  x : Int
  y : Int
  origin : DisplayRect
deriving DecidableEq

/-- Whether the target is on the display. -/
def Warp.onOrigin (warp : Warp) : Bool :=
  warp.origin.contains warp.x warp.y

structure WarpLabel where
  input : BrainInput
  nowMs : Nat

structure WarpRun where
  brain : Brain
  crossedFrom : Option DisplayRect
  warps : List Warp

def isI32 (value : Int) : Bool :=
  -2147483648 ≤ value && value ≤ 2147483647

/-- The tap reports positions in `i32`. -/
def BrainInput.inRange : BrainInput → Bool
  | .source (.cursorAt x y) => isI32 x && isI32 y
  | _ => true

/-- The display the cursor has crossed from last. -/
def Brain.crossedFrom (env : BrainEnv) (brain : Brain) (label : WarpLabel)
    (before : Option DisplayRect) : Option DisplayRect :=
  match label.input with
  | .source (.cursorAt x y) =>
      if brain.crosses env label.input label.nowMs then displayContaining env.displays x y
      else before
  | _ => before

/-- A warp is recorded with the display crossed from, when there is one. -/
def record (crossedFrom : Option DisplayRect) (targets : List (Int × Int)) : List Warp :=
  crossedFrom.toList.flatMap fun origin => targets.map fun (x, y) => ⟨x, y, origin⟩

namespace WarpRun

def start (env : BrainEnv) : WarpRun :=
  ⟨.new env, none, []⟩

def step (env : BrainEnv) (run : WarpRun) (label : WarpLabel) : Option WarpRun :=
  if label.input.inRange then
    let (brain, effects) := run.brain.step env label.input label.nowMs
    let crossedFrom := run.brain.crossedFrom env label run.crossedFrom
    some ⟨brain, crossedFrom, run.warps ++ record crossedFrom (Server.warps effects)⟩
  else none

/-- What holds of every run on an arrangement. -/
structure Sound (arrangement : Arrangement) (env : BrainEnv) (run : WarpRun) : Prop where
  cfg : run.brain.sm.cfg = env.cfg
  home : -2147483648 < run.brain.homeDisplayRight ∧
    run.brain.homeDisplayRight ≤ 2147483647
  member : ∀ origin ∈ run.crossedFrom, origin ∈ arrangement.displays

/-- The ways a step warps: back from the edge on a crossing, home when control returns,
or not at all. -/
inductive Warping (env : BrainEnv) (run next : WarpRun) : WarpLabel → Prop where
  | back {x y : Int} {nowMs : Nat} (inRange : isI32 x = true)
      (crosses : run.brain.crosses env (.source (.cursorAt x y)) nowMs = true)
      (crossedFrom : next.crossedFrom = displayContaining env.displays x y)
      (recorded : next.warps = run.warps ++ next.crossedFrom.toList.map fun origin =>
        ⟨wrapI32 (saturateI32 origin.right - 5), y, origin⟩) :
      Warping env run next ⟨.source (.cursorAt x y), nowMs⟩
  | home {exitY : UInt16} {nowMs : Nat} (wasRemote : run.brain.sm.state = .remoteActive)
      (recorded : next.warps = run.warps ++ run.crossedFrom.toList.map fun origin =>
        ⟨run.brain.homeDisplayRight - 1, exitY.toNat, origin⟩) :
      Warping env run next ⟨.wireMessage (.releaseControl exitY), nowMs⟩
  | quiet {label : WarpLabel}
      (notCrossing : run.brain.crosses env label.input label.nowMs = false)
      (notReturning : ∀ exitY, label.input = .wireMessage (.releaseControl exitY) →
        run.brain.sm.state ≠ .remoteActive)
      (recorded : next.warps = run.warps) : Warping env run next label

variable {arrangement : Arrangement} {remote : String} {modRemap : ModRemap}
  {run next : WarpRun} {label : WarpLabel}

theorem sound_start :
    Sound arrangement (arrangement.env remote modRemap)
      (start (arrangement.env remote modRemap)) where
  cfg := rfl
  home := by
    have bounds := globalRight_bounds (arrangement.env remote modRemap)
    simp only [start, Brain.new]
    omega
  member := nofun

theorem step_eq_some {env : BrainEnv} (stepped : run.step env label = some next) :
    label.input.inRange = true ∧
      next.brain = (run.brain.step env label.input label.nowMs).1 ∧
      next.crossedFrom = run.brain.crossedFrom env label run.crossedFrom ∧
      next.warps = run.warps ++ record next.crossedFrom
        (Server.warps (run.brain.step env label.input label.nowMs).2) := by
  simp only [step, Option.ite_none_right_eq_some, Option.some.injEq] at stepped
  obtain ⟨inRange, rfl⟩ := stepped
  exact ⟨inRange, rfl, rfl, rfl⟩

/-- Right of a position in the `i32` range the edge is in that range. -/
theorem saturateI32_right_bounds {rect : DisplayRect} {x y : Int} (inRange : isI32 x = true)
    (inside : rect.contains x y = true) :
    -2147483648 < saturateI32 rect.right ∧ saturateI32 rect.right ≤ 2147483647 := by
  simp only [isI32, Bool.and_eq_true, decide_eq_true_eq] at inRange
  obtain ⟨⟨_, beforeEdge⟩, _⟩ := DisplayRect.contains_iff.mp inside
  rw [saturateI32]
  omega

theorem sound_step (sound : Sound arrangement (arrangement.env remote modRemap) run)
    (stepped : run.step (arrangement.env remote modRemap) label = some next) :
    Sound arrangement (arrangement.env remote modRemap) next := by
  obtain ⟨inRange, brain, crossedFrom, _⟩ := step_eq_some stepped
  obtain ⟨sameCfg, home⟩ :=
    run.brain.frame_step (arrangement.env remote modRemap) label.input label.nowMs
  rw [← brain] at sameCfg home
  refine ⟨sameCfg.trans sound.cfg, ?_, ?_⟩
  · rw [home]
    obtain ⟨input, nowMs⟩ := label
    cases input with
    | wireMessage msg => exact sound.home
    | source event =>
        cases event with
        | mouseRel | mouseButton | mouseWheel | key => exact sound.home
        | cursorAt x y =>
            simp only [BrainInput.inRange, Bool.and_eq_true] at inRange
            rw [Brain.home_smInput]
            split
            · rename_i rect found
              split
              · exact saturateI32_right_bounds inRange.1 (mem_of_displayContaining found).2
              · exact sound.home
            · exact sound.home
  · rw [crossedFrom, Brain.crossedFrom]
    split
    · split
      · exact fun origin found => (mem_of_displayContaining found).1
      · exact sound.member
    · exact sound.member

@[simp] theorem record_nil (crossedFrom : Option DisplayRect) : record crossedFrom [] = [] := by
  simp [record]

theorem record_singleton (crossedFrom : Option DisplayRect) (x y : Int) :
    record crossedFrom [(x, y)] = crossedFrom.toList.map fun origin => ⟨x, y, origin⟩ := by
  cases crossedFrom <;> rfl

/-- A crossing makes the display crossed from the home display. -/
theorem home_of_crosses (sound : Sound arrangement (arrangement.env remote modRemap) run)
    {x y : Int} {nowMs : Nat} {origin : DisplayRect}
    (crosses : run.brain.crosses (arrangement.env remote modRemap)
      (.source (.cursorAt x y)) nowMs = true)
    (found : displayContaining arrangement.displays x y = some origin) :
    (run.brain.smInput (arrangement.env remote modRemap)
      (.source (.cursorAt x y))).1.homeDisplayRight = saturateI32 origin.right := by
  rw [Brain.crosses_cursorAt sound.cfg (arrangement.one_le_globalRight remote modRemap),
    Bool.and_eq_true, BrainEnv.triggers] at crosses
  rw [Brain.home_smInput]
  simp only [Arrangement.env, found, decide_eq_true_eq] at crosses ⊢
  rw [if_pos crosses.2]

theorem warping_cursorAt (sound : Sound arrangement (arrangement.env remote modRemap) run)
    {x y : Int} {nowMs : Nat}
    (stepped : run.step (arrangement.env remote modRemap) ⟨.source (.cursorAt x y), nowMs⟩ =
      some next) :
    Warping (arrangement.env remote modRemap) run next ⟨.source (.cursorAt x y), nowMs⟩ := by
  obtain ⟨inRange, _, crossedFrom, recorded⟩ := step_eq_some stepped
  rw [Brain.warps_cursorAt sound.cfg] at recorded
  simp only [BrainInput.inRange, Bool.and_eq_true] at inRange
  by_cases crosses : run.brain.crosses (arrangement.env remote modRemap)
      (.source (.cursorAt x y)) nowMs = true
  · simp only [Brain.crossedFrom, if_pos crosses] at crossedFrom
    rw [if_pos crosses, record_singleton] at recorded
    refine .back inRange.1 crosses crossedFrom ?_
    rw [recorded]
    refine congrArg _ (List.map_congr_left fun origin isOrigin => ?_)
    rw [Option.mem_toList, crossedFrom] at isOrigin
    rw [home_of_crosses sound crosses isOrigin]
  · rw [if_neg crosses, record_nil, List.append_nil] at recorded
    exact .quiet (Bool.eq_false_iff.mpr crosses) nofun recorded

theorem warping_releaseControl
    (sound : Sound arrangement (arrangement.env remote modRemap) run) {exitY : UInt16}
    {nowMs : Nat}
    (stepped : run.step (arrangement.env remote modRemap)
      ⟨.wireMessage (.releaseControl exitY), nowMs⟩ = some next) :
    Warping (arrangement.env remote modRemap) run next
      ⟨.wireMessage (.releaseControl exitY), nowMs⟩ := by
  obtain ⟨_, _, crossedFrom, recorded⟩ := step_eq_some stepped
  rw [Brain.warps_releaseControl sound.cfg] at recorded
  by_cases isRemote : run.brain.sm.state = .remoteActive
  · have inRange : wrapI32 (run.brain.homeDisplayRight - 1) =
        run.brain.homeDisplayRight - 1 := by
      have bounds := sound.home
      rw [wrapI32]
      omega
    rw [if_pos isRemote, inRange, record_singleton, crossedFrom] at recorded
    exact .home isRemote recorded
  · rw [if_neg isRemote, record_nil, List.append_nil] at recorded
    exact .quiet rfl (fun _ _ => isRemote) recorded

theorem warping (sound : Sound arrangement (arrangement.env remote modRemap) run)
    (stepped : run.step (arrangement.env remote modRemap) label = some next) :
    Warping (arrangement.env remote modRemap) run next label := by
  obtain ⟨_, _, _, recorded⟩ := step_eq_some stepped
  have turn := run.brain.turn (arrangement.env remote modRemap) label.input label.nowMs
  obtain ⟨input, nowMs⟩ := label
  cases input with
  | source event =>
      cases event with
      | cursorAt x y => exact warping_cursorAt sound stepped
      | mouseRel | mouseButton | mouseWheel | key =>
          rw [Brain.warps_of_turn turn nofun nofun, record_nil, List.append_nil] at recorded
          exact .quiet rfl nofun recorded
  | wireMessage msg =>
      cases msg
      case releaseControl exitY => exact warping_releaseControl sound stepped
      all_goals
        rw [Brain.warps_of_turn turn nofun nofun, record_nil, List.append_nil] at recorded
        exact .quiet rfl nofun recorded

end WarpRun

end Kmwarp.Server
