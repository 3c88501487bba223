import Mathlib.Data.List.Basic

/-!
# Finite runs of labelled machines

A machine is a partial step function: a label names one atomic step and
`none` says that the step is not enabled.  Every nondeterministic choice (a
scheduler, a clock, an environment) is part of the label, so a statement
about all label lists is a statement about all interleavings.
-/

namespace Kmwarp.Foundation

universe u v

variable {σ : Type u} {ℓ : Type v}

/-- Perform a list of steps, failing as soon as one of them is disabled. -/
def exec (step : σ → ℓ → Option σ) : σ → List ℓ → Option σ
  | state, [] => some state
  | state, label :: labels =>
      (step state label).bind fun next => exec step next labels

/-- Every step of the run from `state` along `labels` is taken in a state
that allows it. -/
def Along (step : σ → ℓ → Option σ) (allowed : σ → ℓ → Prop) :
    σ → List ℓ → Prop
  | _, [] => True
  | state, label :: labels =>
      ∀ next, step state label = some next →
        allowed state label ∧ Along step allowed next labels

/-- Every state of the run from `state` along `labels` has the property. -/
def Throughout (step : σ → ℓ → Option σ) (property : σ → Prop) :
    σ → List ℓ → Prop
  | state, [] => property state
  | state, label :: labels =>
      property state ∧
        ∀ next, step state label = some next → Throughout step property next labels

instance decidableAlong (step : σ → ℓ → Option σ) (allowed : σ → ℓ → Prop)
    [∀ state label, Decidable (allowed state label)] :
    ∀ (state : σ) (labels : List ℓ), Decidable (Along step allowed state labels)
  | _, [] => isTrue trivial
  | state, label :: labels =>
      match result : step state label with
      | none => isTrue fun next taken => by simp [result] at taken
      | some next =>
          have := decidableAlong step allowed next labels
          decidable_of_iff (allowed state label ∧ Along step allowed next labels) (by
            simp [Along, result])

instance decidableThroughout (step : σ → ℓ → Option σ) (property : σ → Prop)
    [DecidablePred property] :
    ∀ (state : σ) (labels : List ℓ), Decidable (Throughout step property state labels)
  | state, [] => inferInstanceAs (Decidable (property state))
  | state, label :: labels =>
      match result : step state label with
      | none => decidable_of_iff (property state) (by simp [Throughout, result])
      | some next =>
          have := decidableThroughout step property next labels
          decidable_of_iff (property state ∧ Throughout step property next labels) (by
            simp [Throughout, result])

variable {step : σ → ℓ → Option σ} {allowed : σ → ℓ → Prop} {property : σ → Prop}

theorem exec_cons_eq_some {state final : σ} {label : ℓ} {labels : List ℓ} :
    exec step state (label :: labels) = some final ↔
      ∃ next, step state label = some next ∧
        exec step next labels = some final := by
  simp [exec, Option.bind_eq_some_iff]

theorem exec_append (state : σ) (first second : List ℓ) :
    exec step state (first ++ second) =
      (exec step state first).bind fun middle => exec step middle second := by
  induction first generalizing state with
  | nil => rfl
  | cons label labels ih =>
      simp only [List.cons_append, exec]
      cases step state label with
      | none => rfl
      | some next => exact ih next

theorem exec_append_eq_some {start final : σ} {first second : List ℓ} :
    exec step start (first ++ second) = some final ↔
      ∃ middle, exec step start first = some middle ∧ exec step middle second = some final := by
  rw [exec_append, Option.bind_eq_some_iff]

/-- A run has a property throughout exactly when each of its prefixes ends in
a state that has it. -/
theorem throughout_iff {start : σ} {labels : List ℓ} :
    Throughout step property start labels ↔
      ∀ before after state, labels = before ++ after →
        exec step start before = some state → property state := by
  induction labels generalizing start with
  | nil =>
      constructor
      · intro holds before after state split run
        obtain ⟨rfl, rfl⟩ := List.append_eq_nil_iff.mp split.symm
        cases run
        exact holds
      · intro holds
        exact holds [] [] start rfl rfl
  | cons label labels ih =>
      constructor
      · rintro ⟨here, later⟩ before after state split run
        cases before with
        | nil =>
            cases run
            exact here
        | cons head before =>
            obtain ⟨rfl, rfl⟩ := List.cons_eq_cons.mp split
            obtain ⟨next, taken, rest⟩ := exec_cons_eq_some.mp run
            exact ih.mp (later next taken) before after state rfl rest
      · intro holds
        refine ⟨holds [] _ start rfl rfl, fun next taken => ih.mpr ?_⟩
        intro before after state split run
        refine holds (label :: before) after state (by rw [split, List.cons_append]) ?_
        exact exec_cons_eq_some.mpr ⟨next, taken, run⟩

theorem Throughout.mono {weaker : σ → Prop} (weaken : ∀ state, property state → weaker state)
    {start : σ} {labels : List ℓ} (throughout : Throughout step property start labels) :
    Throughout step weaker start labels := by
  induction labels generalizing start with
  | nil => exact weaken start throughout
  | cons label labels ih =>
      exact ⟨weaken start throughout.1, fun next taken => ih (throughout.2 next taken)⟩

/-- What every allowed step preserves holds throughout a run whose steps are
all allowed. -/
theorem throughout_of_along
    (preserved : ∀ state label next, property state → allowed state label →
      step state label = some next → property next)
    {start : σ} {labels : List ℓ} (initial : property start)
    (along : Along step allowed start labels) :
    Throughout step property start labels := by
  induction labels generalizing start with
  | nil => exact initial
  | cons label labels ih =>
      refine ⟨initial, fun next taken => ?_⟩
      obtain ⟨here, later⟩ := along next taken
      exact ih (preserved start label next initial here taken) later

/-- What every step between assumed states preserves holds throughout a run of assumed
states. -/
theorem Throughout.preserve {assumed : σ → Prop}
    (preserved : ∀ state label next, assumed state → property state → assumed next →
      step state label = some next → property next)
    {start : σ} {labels : List ℓ} (initial : property start)
    (throughout : Throughout step assumed start labels) :
    Throughout step (fun state => assumed state ∧ property state) start labels := by
  induction labels generalizing start with
  | nil => exact ⟨throughout, initial⟩
  | cons label labels ih =>
      obtain ⟨here, later⟩ := throughout
      refine ⟨⟨here, initial⟩, fun next taken => ?_⟩
      have rest := later next taken
      have nextHolds : assumed next := by
        cases labels with
        | nil => exact rest
        | cons _ _ => exact rest.1
      exact ih (preserved start label next here initial nextHolds taken) rest

/-- When a step keeps the property exactly if it is allowed, a run has the
property throughout exactly if all its steps are allowed.  The invariant is
what every step keeps anyway. -/
theorem throughout_iff_along {invariant : σ → Prop}
    (kept : ∀ state label next, invariant state → step state label = some next →
      invariant next)
    (stepExact : ∀ state label next, invariant state → property state →
      step state label = some next → (property next ↔ allowed state label))
    {start : σ} {labels : List ℓ} (always : invariant start)
    (initial : property start) :
    Throughout step property start labels ↔ Along step allowed start labels := by
  induction labels generalizing start with
  | nil => exact ⟨fun _ => trivial, fun _ => initial⟩
  | cons label labels ih =>
      constructor
      · rintro ⟨_, later⟩ next taken
        have nextHolds : property next := by
          have rest := later next taken
          cases labels with
          | nil => exact rest
          | cons _ _ => exact rest.1
        exact ⟨(stepExact start label next always initial taken).mp nextHolds,
          (ih (kept start label next always taken) nextHolds).mp (later next taken)⟩
      · intro along
        refine ⟨initial, fun next taken => ?_⟩
        obtain ⟨here, rest⟩ := along next taken
        have nextHolds := (stepExact start label next always initial taken).mpr here
        exact (ih (kept start label next always taken) nextHolds).mpr rest

theorem final_of_throughout {start final : σ} {labels : List ℓ}
    (throughout : Throughout step property start labels)
    (run : exec step start labels = some final) : property final :=
  throughout_iff.mp throughout labels [] final (List.append_nil labels).symm run

theorem along_of_forall {allowedLabel : ℓ → Prop} {start : σ} {labels : List ℓ}
    (all : ∀ label ∈ labels, allowedLabel label) :
    Along step (fun _ label => allowedLabel label) start labels := by
  induction labels generalizing start with
  | nil => trivial
  | cons label labels ih =>
      intro next _
      exact ⟨all label List.mem_cons_self,
        ih fun later member => all later (List.mem_cons_of_mem _ member)⟩

/-- What every step preserves holds in every reachable state. -/
theorem invariant_of_exec
    (preserved : ∀ state label next, property state →
      step state label = some next → property next)
    {start final : σ} {labels : List ℓ} (initial : property start)
    (run : exec step start labels = some final) : property final := by
  have along : Along step (fun _ _ => True) start labels :=
    along_of_forall fun _ _ => trivial
  have always : ∀ state label next, property state → True →
      step state label = some next → property next :=
    fun state label next holds _ taken => preserved state label next holds taken
  exact final_of_throughout (throughout_of_along always initial along) run

end Kmwarp.Foundation
