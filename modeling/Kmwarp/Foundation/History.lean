import Kmwarp.Foundation.Runs
import Mathlib.Data.List.Induction

/-!
# Runs with their history

Invariants that relate a state to the steps that led to it.
-/

namespace Kmwarp.Foundation

universe u v w

/-- Some item of the list has the property together with what stands before it. -/
def Somewhere {α : Type u} (property : List α → α → Prop) (items : List α) : Prop :=
  ∃ before item after, items = before ++ item :: after ∧ property before item

section Somewhere

variable {α : Type u} {property : List α → α → Prop}

@[simp] theorem not_somewhere_nil : ¬ Somewhere property [] := by
  rintro ⟨before, item, after, split, _⟩
  exact absurd split.symm (by simp)

theorem somewhere_append_one {items : List α} {last : α} :
    Somewhere property (items ++ [last]) ↔ Somewhere property items ∨ property items last := by
  constructor
  · rintro ⟨before, item, after, split, holds⟩
    rcases List.eq_nil_or_concat after with rfl | ⟨shorter, final, rfl⟩
    · obtain ⟨rfl, same⟩ := List.append_inj' split rfl
      cases same
      exact .inr holds
    · have cut : items ++ [last] = (before ++ item :: shorter) ++ [final] := by
        rw [split, List.concat_eq_append, List.append_assoc, List.cons_append]
      obtain ⟨rfl, _⟩ := List.append_inj' cut rfl
      exact .inl ⟨before, item, shorter, rfl, holds⟩
  · rintro (⟨before, item, after, rfl, holds⟩ | holds)
    · exact ⟨before, item, after ++ [last], by rw [List.append_assoc, List.cons_append], holds⟩
    · exact ⟨items, last, [], rfl, holds⟩

theorem Somewhere.append {items : List α} (somewhere : Somewhere property items)
    (more : List α) : Somewhere property (items ++ more) := by
  obtain ⟨before, item, after, rfl, holds⟩ := somewhere
  exact ⟨before, item, after ++ more, by simp, holds⟩

end Somewhere

variable {σ : Type u} {ℓ : Type v} {step : σ → ℓ → Option σ}

/-- All steps are allowed exactly when those before the last one and the last one are. -/
theorem along_append_one {allowed : σ → ℓ → Prop} {start state : σ} {labels : List ℓ}
    {label : ℓ} (run : exec step start labels = some state) :
    Along step allowed start (labels ++ [label]) ↔
      Along step allowed start labels ∧
        ∀ next, step state label = some next → allowed state label := by
  induction labels generalizing start with
  | nil =>
      cases run
      simp [Along]
  | cons first labels ih =>
      obtain ⟨next, taken, rest⟩ := exec_cons_eq_some.mp run
      simp only [List.cons_append, Along, taken, Option.some.injEq, forall_eq', ih rest,
        and_assoc]

/-- The step is the last one that changes what is seen of the state. -/
def LastChange {α : Type w} (step : σ → ℓ → Option σ) (view : σ → α) (start : σ)
    (labels : List ℓ) (label : ℓ) : Prop :=
  ∃ before after state next, labels = before ++ label :: after ∧
    exec step start before = some state ∧ step state label = some next ∧
    view state ≠ view next ∧ Throughout step (fun later => view later = view next) next after

theorem exec_append_one {start final : σ} {labels : List ℓ} {label : ℓ} :
    exec step start (labels ++ [label]) = some final ↔
      ∃ state, exec step start labels = some state ∧ step state label = some final := by
  rw [exec_append_eq_some]
  refine exists_congr fun state => and_congr_right fun _ => ?_
  rw [exec_cons_eq_some]
  constructor
  · rintro ⟨next, taken, ⟨⟩⟩
    exact taken
  · exact fun taken => ⟨final, taken, rfl⟩

/-- What is seen at the end of a run is what the last change has left. -/
theorem LastChange.left {α : Type w} {view : σ → α} {start final : σ} {labels : List ℓ}
    {label : ℓ} (last : LastChange step view start labels label)
    (run : exec step start labels = some final) :
    ∃ state next, step state label = some next ∧ view state ≠ view next ∧
      view final = view next := by
  obtain ⟨before, after, state, next, rfl, reached, changes, differs, throughout⟩ := last
  rw [exec_append, reached, Option.bind_some] at run
  obtain ⟨_, sameStep, later⟩ := exec_cons_eq_some.mp run
  cases changes.symm.trans sameStep
  have seen := final_of_throughout throughout later
  exact ⟨state, next, changes, differs, seen⟩

/-- If each step of a kind brings a measure down and no step brings it up, a run has at most so
many steps of the kind. -/
theorem countP_add_le_of_exec {counted : ℓ → Bool} {measure : σ → Nat}
    {invariant : σ → Prop}
    (kept : ∀ state label next, invariant state → step state label = some next →
      invariant next)
    (decreases : ∀ state label next, invariant state → step state label = some next →
      measure next + (counted label).toNat ≤ measure state)
    {start final : σ} {labels : List ℓ} (initial : invariant start)
    (run : exec step start labels = some final) :
    labels.countP counted + measure final ≤ measure start := by
  induction labels generalizing start with
  | nil =>
      cases run
      simp
  | cons label labels ih =>
      obtain ⟨next, taken, rest⟩ := exec_cons_eq_some.mp run
      have here := decreases start label next initial taken
      have later := ih (kept start label next initial taken) rest
      rw [List.countP_cons]
      cases counts : counted label <;> simp [counts] at here ⊢ <;> omega

/-- What every step preserves, the steps taken so far included, holds at the end of a run. -/
theorem history_of_exec {holds : List ℓ → σ → Prop} {start final : σ} {labels : List ℓ}
    (preserved : ∀ done state label next, exec step start done = some state →
      holds done state → step state label = some next → holds (done ++ [label]) next)
    (initial : holds [] start) (run : exec step start labels = some final) :
    holds labels final := by
  induction labels using List.reverseRecOn generalizing final with
  | nil =>
      cases run
      exact initial
  | append_singleton labels label ih =>
      obtain ⟨state, reached, taken⟩ := exec_append_one.mp run
      exact preserved labels state label final reached (ih reached) taken

/-! ## Observations -/

/-- What is seen of the steps of a run, each in the state before it. -/
def observed {α : Type w} (step : σ → ℓ → Option σ) (look : σ → ℓ → Option α) :
    σ → List ℓ → List α
  | _, [] => []
  | state, label :: labels =>
      (look state label).toList ++
        match step state label with
        | some next => observed step look next labels
        | none => []

theorem observed_append_one {α : Type w} {look : σ → ℓ → Option α} {start state : σ}
    {labels : List ℓ} {label : ℓ} (run : exec step start labels = some state) :
    observed step look start (labels ++ [label]) =
      observed step look start labels ++ (look state label).toList := by
  induction labels generalizing start with
  | nil =>
      cases run
      simp only [List.nil_append, observed]
      split <;> exact List.append_nil _
  | cons first labels ih =>
      obtain ⟨next, taken, rest⟩ := exec_cons_eq_some.mp run
      simp only [List.cons_append, observed, taken, ih rest, List.append_assoc]

/-- What is selected from the observations, if it depends on the labels only. -/
theorem filterMap_observed {α β : Type w} {look : σ → ℓ → Option α}
    {select : α → Option β} {shown : ℓ → Option β}
    (same : ∀ state label, (look state label).bind select = shown label)
    {start final : σ} {labels : List ℓ} (run : exec step start labels = some final) :
    (observed step look start labels).filterMap select = labels.filterMap shown := by
  induction labels generalizing start with
  | nil => rfl
  | cons label labels ih =>
      obtain ⟨next, taken, rest⟩ := exec_cons_eq_some.mp run
      rw [observed, taken, List.filterMap_append, ih rest, List.filterMap_cons, ← same start]
      cases look start label with
      | none => rfl
      | some seen => cases selected : select seen <;> simp [selected]

end Kmwarp.Foundation
