import Kmwarp.Server.Warps

/-!
# Where the warps land

The back-warp lands on the display crossed from, off its right edge.  The return warp
lands in the last column before the home edge, which triggers a crossing, and takes its
row from the peer.
-/

namespace Kmwarp.Server

open Foundation Wire

namespace WarpRun

/-- A later report of the target of a warp, on the display crossed from, does not
cross. -/
def OffTrigger (env : BrainEnv) (run : WarpRun) : Prop :=
  ∀ labels later, exec (step env) run labels = some later →
    ∀ warp ∈ run.warps, warp.onOrigin = true → ∀ nowMs,
      later.brain.crosses env (.source (.cursorAt warp.x warp.y)) nowMs = false

/-- Every warp has landed on the display crossed from. -/
def OnOrigin (run : WarpRun) : Prop :=
  ∀ warp ∈ run.warps, warp.onOrigin = true

/-- When control returns with the home edge still that of the display crossed from, the
position before it in the row `exit_y` is not on this display. -/
def ReturnsOffTrigger (run : WarpRun) (label : WarpLabel) : Prop :=
  match label.input with
  | .wireMessage (.releaseControl exitY) =>
      run.brain.sm.state = .remoteActive → ∀ origin ∈ run.crossedFrom,
        run.brain.homeDisplayRight = saturateI32 origin.right →
          origin.contains (run.brain.homeDisplayRight - 1) exitY.toNat = false
  | _ => True

/-- Control is lost from a display within the `i32` range, and returns with the home
edge within the columns, and `exit_y` within the rows, of the display crossed from. -/
def ReturnsToOrigin (env : BrainEnv) (run : WarpRun) (label : WarpLabel) : Prop :=
  match label.input with
  | .source (.cursorAt x y) =>
      run.brain.crosses env label.input label.nowMs = true →
        ∀ origin ∈ displayContaining env.displays x y,
          -2147483643 ≤ origin.right ∧ origin.originX ≤ 2147483642
  | .wireMessage (.releaseControl exitY) =>
      run.brain.sm.state = .remoteActive → ∀ origin ∈ run.crossedFrom,
        (origin.originX < run.brain.homeDisplayRight ∧
            run.brain.homeDisplayRight ≤ origin.right) ∧
          origin.originY ≤ exitY.toNat ∧ exitY.toNat < origin.bottom
  | _ => True

/-- The home edge is that of the display crossed from. -/
def AtHome (run : WarpRun) : Prop :=
  ∀ origin ∈ run.crossedFrom, run.brain.homeDisplayRight = saturateI32 origin.right

/-- A report that does not cross is not at the right edge of a display whose right edge is
another than that of the display crossed from. -/
def NoEdgeElsewhere (env : BrainEnv) (run : WarpRun) (label : WarpLabel) : Prop :=
  match label.input with
  | .source (.cursorAt x y) =>
      run.brain.crosses env label.input label.nowMs = false →
        ∀ origin ∈ run.crossedFrom, ∀ rect ∈ displayContaining env.displays x y,
          saturateI32 rect.right - 1 ≤ x → saturateI32 rect.right = saturateI32 origin.right
  | _ => True

variable {arrangement : Arrangement} {remote : String} {modRemap : ModRemap}
  {run next : WarpRun} {label : WarpLabel}

/-- What holds of the recorded warps holds of the earlier ones and of each new one. -/
private theorem forall_recorded {property : Warp → Prop} {warps : List Warp}
    {crossedFrom : Option DisplayRect} {target : DisplayRect → Warp} :
    (∀ warp ∈ warps ++ crossedFrom.toList.map target, property warp) ↔
      (∀ warp ∈ warps, property warp) ∧
        ∀ origin ∈ crossedFrom, property (target origin) := by
  rw [List.forall_mem_append, List.forall_mem_map]
  simp only [Option.mem_toList, Option.mem_def]

/-! ## Off the trigger -/

theorem exists_cooldownElapsed (machine : StateMachine) :
    ∃ nowMs, machine.cooldownElapsed nowMs = true := by
  refine ⟨machine.lastTransitionMs + machine.cfg.thrashCooldownMs.toNat, ?_⟩
  rw [StateMachine.cooldownElapsed]
  split
  · rfl
  · simp

/-- Local control can be had again at any time, so a later report crosses exactly if its
position triggers. -/
theorem offTrigger_iff (sound : Sound arrangement (arrangement.env remote modRemap) run) :
    run.OffTrigger (arrangement.env remote modRemap) ↔
      ∀ warp ∈ run.warps, warp.onOrigin = true →
        (arrangement.env remote modRemap).triggers warp.x warp.y = false := by
  let env := arrangement.env remote modRemap
  have wide := arrangement.one_le_globalRight remote modRemap
  have stillSound : ∀ labels later, exec (step env) run labels = some later →
      Sound arrangement env later := fun labels later reached =>
    invariant_of_exec (fun _ _ _ => sound_step) sound reached
  constructor
  · intro offTrigger warp recorded onOrigin
    let release : WarpLabel := ⟨.wireMessage (.releaseControl 0), 0⟩
    obtain ⟨later, stepped⟩ : ∃ later, run.step env release = some later := ⟨_, rfl⟩
    have reached : exec (step env) run [release] = some later :=
      exec_cons_eq_some.mpr ⟨later, stepped, rfl⟩
    have isLocal : later.brain.sm.state = .localActive := by
      rw [(step_eq_some stepped).2.1]
      exact run.brain.state_step_releaseControl env 0 0
    obtain ⟨nowMs, elapsed⟩ := exists_cooldownElapsed later.brain.sm
    have stays := offTrigger [release] later reached warp recorded onOrigin nowMs
    rw [Brain.crosses_cursorAt (stillSound _ _ reached).cfg wide, elapsed] at stays
    simpa [isLocal] using stays
  · intro noTrigger labels later reached warp recorded onOrigin nowMs
    rw [Brain.crosses_cursorAt (stillSound labels later reached).cfg wide,
      noTrigger warp recorded onOrigin, Bool.and_false]

/-- On a display of the arrangement, a position triggers at the right edge. -/
theorem triggers_on {origin : DisplayRect} {x y : Int} (member : origin ∈ arrangement.displays)
    (inside : origin.contains x y = true) :
    (arrangement.env remote modRemap).triggers x y =
      decide (saturateI32 origin.right - 1 ≤ x) := by
  have found : displayContaining (arrangement.env remote modRemap).displays x y =
      some origin := arrangement.displayContaining_eq member inside
  rw [BrainEnv.triggers, found]

/-- The target of a back-warp is left of the trigger. -/
theorem triggers_backWarp {origin : DisplayRect} {x y : Int}
    (member : origin ∈ arrangement.displays) (inRange : isI32 x = true)
    (crossed : origin.contains x y = true)
    (inside : origin.contains (wrapI32 (saturateI32 origin.right - 5)) y = true) :
    (arrangement.env remote modRemap).triggers
      (wrapI32 (saturateI32 origin.right - 5)) y = false := by
  have bounds := saturateI32_right_bounds inRange crossed
  obtain ⟨⟨_, beforeEdge⟩, _⟩ := DisplayRect.contains_iff.mp inside
  rw [triggers_on member inside, decide_eq_false_iff_not]
  simp only [saturateI32, wrapI32] at bounds beforeEdge ⊢
  omega

/-- A return warp on the display crossed from triggers exactly if the home edge is that
of this display. -/
theorem triggers_returnWarp {origin : DisplayRect} {home y : Int}
    (member : origin ∈ arrangement.displays) (inRange : home ≤ 2147483647)
    (inside : origin.contains (home - 1) y = true) :
    (arrangement.env remote modRemap).triggers (home - 1) y = false ↔
      home ≠ saturateI32 origin.right := by
  obtain ⟨⟨_, beforeEdge⟩, _⟩ := DisplayRect.contains_iff.mp inside
  rw [triggers_on member inside, decide_eq_false_iff_not]
  simp only [saturateI32]
  omega

theorem offTrigger_step_iff
    (sound : Sound arrangement (arrangement.env remote modRemap) run)
    (offTrigger : run.OffTrigger (arrangement.env remote modRemap))
    (stepped : run.step (arrangement.env remote modRemap) label = some next) :
    next.OffTrigger (arrangement.env remote modRemap) ↔ run.ReturnsOffTrigger label := by
  have nextSound := sound_step sound stepped
  rw [offTrigger_iff sound] at offTrigger
  rw [offTrigger_iff nextSound]
  cases warping sound stepped with
  | @back x y nowMs inRange crosses crossedFrom recorded =>
      rw [recorded, forall_recorded]
      refine iff_of_true ⟨offTrigger, fun origin isOrigin inside => ?_⟩ trivial
      have crossed := (mem_of_displayContaining (crossedFrom ▸ isOrigin)).2
      exact triggers_backWarp (nextSound.member origin isOrigin) inRange crossed inside
  | @home exitY nowMs wasRemote recorded =>
      rw [recorded, forall_recorded]
      simp only [ReturnsOffTrigger, wasRemote, forall_const, Warp.onOrigin]
      constructor
      · rintro ⟨_, returned⟩ origin isOrigin sameEdge
        refine Bool.eq_false_iff.mpr fun inside => ?_
        have distinct := (triggers_returnWarp (sound.member origin isOrigin) sound.home.2
          inside).mp (returned origin isOrigin inside)
        exact distinct sameEdge
      · intro returns
        refine ⟨offTrigger, fun origin isOrigin inside => ?_⟩
        refine (triggers_returnWarp (sound.member origin isOrigin) sound.home.2 inside).mpr ?_
        intro sameEdge
        have outside := returns origin isOrigin sameEdge
        rw [inside] at outside
        cases outside
  | quiet _ notReturning recorded =>
      rw [recorded]
      refine iff_of_true offTrigger ?_
      rw [ReturnsOffTrigger]
      split
      · rename_i exitY isRelease
        exact fun isRemote => absurd isRemote (notReturning exitY isRelease)
      · trivial

/-! ## On the display crossed from -/

/-- The target of a back-warp is on a display within the `i32` range, which is wide
enough. -/
theorem contains_backWarp_iff {origin : DisplayRect} {x y : Int} (wide : 6 ≤ origin.width)
    (inRange : isI32 x = true) (crossed : origin.contains x y = true) :
    origin.contains (wrapI32 (saturateI32 origin.right - 5)) y = true ↔
      -2147483643 ≤ origin.right ∧ origin.originX ≤ 2147483642 := by
  have bounds := saturateI32_right_bounds inRange crossed
  obtain ⟨⟨fromLeft, beforeEdge⟩, rows⟩ := DisplayRect.contains_iff.mp crossed
  rw [DisplayRect.contains_iff, and_iff_left rows]
  simp only [isI32, Bool.and_eq_true, decide_eq_true_eq] at inRange
  simp only [saturateI32, wrapI32, DisplayRect.right] at bounds beforeEdge ⊢
  omega

theorem onOrigin_step_iff
    (sound : Sound arrangement (arrangement.env remote modRemap) run)
    (onOrigin : run.OnOrigin)
    (stepped : run.step (arrangement.env remote modRemap) label = some next) :
    next.OnOrigin ↔ run.ReturnsToOrigin (arrangement.env remote modRemap) label := by
  have nextSound := sound_step sound stepped
  rw [OnOrigin] at onOrigin ⊢
  cases warping sound stepped with
  | @back x y nowMs inRange crosses crossedFrom recorded =>
      rw [recorded, forall_recorded, and_iff_right onOrigin]
      simp only [ReturnsToOrigin, crosses, forall_const, ← crossedFrom, Warp.onOrigin]
      refine forall_congr' fun origin => forall_congr' fun isOrigin => ?_
      have crossed := (mem_of_displayContaining (crossedFrom ▸ isOrigin)).2
      have wide := arrangement.wide origin (nextSound.member origin isOrigin)
      exact contains_backWarp_iff wide inRange crossed
  | @home exitY nowMs wasRemote recorded =>
      rw [recorded, forall_recorded, and_iff_right onOrigin]
      simp only [ReturnsToOrigin, wasRemote, forall_const, Warp.onOrigin,
        DisplayRect.contains_iff]
      refine forall_congr' fun origin => forall_congr' fun _ => and_congr_left fun _ => ?_
      omega
  | quiet notCrossing notReturning recorded =>
      rw [recorded]
      refine iff_of_true onOrigin ?_
      rw [ReturnsToOrigin]
      split
      · rename_i x y isCursor
        intro crosses
        rw [notCrossing] at crosses
        cases crosses
      · rename_i exitY isRelease
        exact fun isRemote => absurd isRemote (notReturning exitY isRelease)
      · trivial

/-! ## The home edge -/

theorem atHome_step_iff (sound : Sound arrangement (arrangement.env remote modRemap) run)
    (atHome : run.AtHome)
    (stepped : run.step (arrangement.env remote modRemap) label = some next) :
    next.AtHome ↔ run.NoEdgeElsewhere (arrangement.env remote modRemap) label := by
  obtain ⟨_, brain, crossedFrom, _⟩ := step_eq_some stepped
  have home :=
    (run.brain.frame_step (arrangement.env remote modRemap) label.input label.nowMs).2
  rw [← brain] at home
  obtain ⟨input, nowMs⟩ := label
  cases input with
  | wireMessage msg =>
      rw [AtHome, crossedFrom, home]
      exact iff_of_true atHome trivial
  | source event =>
      cases event with
      | mouseRel | mouseButton | mouseWheel | key =>
          rw [AtHome, crossedFrom, home]
          exact iff_of_true atHome trivial
      | cursorAt x y =>
          cases crosses : run.brain.crosses (arrangement.env remote modRemap)
              (.source (.cursorAt x y)) nowMs with
          | true =>
              simp only [Brain.crossedFrom, crosses, if_true] at crossedFrom
              refine iff_of_true (fun origin isOrigin => ?_) fun stays => ?_
              · rw [home]
                exact home_of_crosses sound crosses (crossedFrom ▸ isOrigin)
              · exact absurd (crosses.symm.trans stays) Bool.noConfusion
          | false =>
              simp only [Brain.crossedFrom, crosses, Bool.false_eq_true, if_false]
                at crossedFrom
              rw [AtHome, crossedFrom, home, Brain.home_smInput]
              simp only [NoEdgeElsewhere, crosses, forall_const]
              refine forall_congr' fun origin => forall_congr' fun isOrigin => ?_
              have before := atHome origin isOrigin
              cases found : displayContaining (arrangement.env remote modRemap).displays x y with
              | none =>
                  refine iff_of_true before fun rect isRect => ?_
                  cases isRect
              | some rect =>
                  simp only [Option.mem_def, Option.some.injEq, forall_eq']
                  split
                  · rename_i edge
                    exact (imp_iff_right edge).symm
                  · rename_i notEdge
                    exact iff_of_true before fun edge => absurd edge notEdge

end WarpRun

/-- On every arrangement and in every run, the home edge stays that of the display crossed
from if and only if no report comes from the right edge of a display with another one. -/
theorem atHome_iff_noEdgeElsewhere (arrangement : Arrangement) (remote : String)
    (modRemap : ModRemap) (labels : List WarpLabel) :
    Throughout (WarpRun.step (arrangement.env remote modRemap)) WarpRun.AtHome
        (.start (arrangement.env remote modRemap)) labels ↔
      Along (WarpRun.step (arrangement.env remote modRemap))
        (WarpRun.NoEdgeElsewhere (arrangement.env remote modRemap))
        (.start (arrangement.env remote modRemap)) labels :=
  throughout_iff_along (fun _ _ _ => WarpRun.sound_step)
    (fun _ _ _ => WarpRun.atHome_step_iff) WarpRun.sound_start nofun

/-- On every arrangement and in every run, no warp onto the display crossed from lands on
its trigger if and only if no return warp lands in the last column of this display. -/
theorem offTrigger_iff_returnsOffTrigger (arrangement : Arrangement) (remote : String)
    (modRemap : ModRemap) (labels : List WarpLabel) :
    Throughout (WarpRun.step (arrangement.env remote modRemap))
        (WarpRun.OffTrigger (arrangement.env remote modRemap))
        (.start (arrangement.env remote modRemap)) labels ↔
      Along (WarpRun.step (arrangement.env remote modRemap)) WarpRun.ReturnsOffTrigger
        (.start (arrangement.env remote modRemap)) labels :=
  throughout_iff_along (fun _ _ _ => WarpRun.sound_step)
    (fun _ _ _ => WarpRun.offTrigger_step_iff) WarpRun.sound_start
    (fun _ _ _ _ recorded => by cases recorded)

/-- The display of `singleDisplay`. -/
def singleArrangement : Arrangement where
  displays := [⟨0, 0, 1920, 1080⟩]
  mainDisplay := ⟨0, 0, 1920, 1080⟩
  apart := List.pairwise_singleton _ _
  wide := by decide

/-- Control is lost in row 300 and returns in the given row. -/
def returnInRow (exitY : UInt16) : List WarpLabel :=
  [⟨.source (.cursorAt 1919 300), 100⟩, ⟨.wireMessage (.releaseControl exitY), 200⟩]

/-- After the cooldown a report of the position returned to crosses again. -/
theorem not_offTrigger_returnInRow :
    ¬ ∀ labels, Throughout (WarpRun.step (singleArrangement.env "peer" {}))
      (WarpRun.OffTrigger (singleArrangement.env "peer" {}))
      (.start (singleArrangement.env "peer" {})) labels := by
  intro always
  have ended : (exec (WarpRun.step (singleArrangement.env "peer" {}))
      (.start (singleArrangement.env "peer" {})) (returnInRow 300)).map
        (fun run => (run.warps, run.brain.crosses (singleArrangement.env "peer" {})
          (.source (.cursorAt 1919 300)) 250)) =
      some ([⟨1915, 300, ⟨0, 0, 1920, 1080⟩⟩, ⟨1919, 300, ⟨0, 0, 1920, 1080⟩⟩],
        true) := by
    decide
  obtain ⟨final, reached, outcome⟩ := Option.map_eq_some_iff.mp ended
  obtain ⟨recorded, crosses⟩ := Prod.mk.inj outcome
  have offTrigger : final.OffTrigger _ := final_of_throughout (always _) reached
  have stays := offTrigger [] final rfl ⟨1919, 300, ⟨0, 0, 1920, 1080⟩⟩
    (by rw [recorded]; decide) (by decide) 250
  rw [crosses] at stays
  cases stays

/-- On every arrangement and in every run, every warp lands on the display crossed from
if and only if control is lost from displays within the `i32` range and returns to the
columns and rows of the display crossed from. -/
theorem onOrigin_iff_returnsToOrigin (arrangement : Arrangement) (remote : String)
    (modRemap : ModRemap) (labels : List WarpLabel) :
    Throughout (WarpRun.step (arrangement.env remote modRemap)) WarpRun.OnOrigin
        (.start (arrangement.env remote modRemap)) labels ↔
      Along (WarpRun.step (arrangement.env remote modRemap))
        (WarpRun.ReturnsToOrigin (arrangement.env remote modRemap))
        (.start (arrangement.env remote modRemap)) labels :=
  throughout_iff_along (fun _ _ _ => WarpRun.sound_step)
    (fun _ _ _ => WarpRun.onOrigin_step_iff) WarpRun.sound_start
    (fun _ recorded => by cases recorded)

/-- A peer with a higher screen returns control below the display. -/
theorem not_onOrigin_returnInRow :
    ¬ ∀ labels, Throughout (WarpRun.step (singleArrangement.env "peer" {})) WarpRun.OnOrigin
      (.start (singleArrangement.env "peer" {})) labels := by
  intro always
  have ended : (exec (WarpRun.step (singleArrangement.env "peer" {}))
      (.start (singleArrangement.env "peer" {})) (returnInRow 1200)).map WarpRun.warps =
      some [⟨1915, 300, ⟨0, 0, 1920, 1080⟩⟩, ⟨1919, 1200, ⟨0, 0, 1920, 1080⟩⟩] := by
    decide
  obtain ⟨final, reached, recorded⟩ := Option.map_eq_some_iff.mp ended
  have onOrigin : final.OnOrigin := final_of_throughout (always _) reached
  have below := onOrigin ⟨1919, 1200, ⟨0, 0, 1920, 1080⟩⟩ (by rw [recorded]; decide)
  revert below
  decide

end Kmwarp.Server
