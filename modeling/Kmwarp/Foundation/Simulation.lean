import Kmwarp.Foundation.Runs

/-!
# Forward simulations

A concrete machine simulates an abstract one when each of its steps is matched by an
abstract step, or leaves the abstract state as it is.
-/

namespace Kmwarp.Foundation

universe u v w x

variable {σ : Type u} {ℓ : Type v} {τ : Type w} {κ : Type x}

/-- A concrete step from related states is the abstract step that `action` makes of its
label, or a stutter if it makes none of it. -/
def Simulates (concrete : σ → ℓ → Option σ) (abstract : τ → κ → Option τ)
    (action : ℓ → Option κ) (related : σ → τ → Prop) : Prop :=
  ∀ state label next view, related state view → concrete state label = some next →
    match action label with
    | some taken => ∃ nextView, abstract view taken = some nextView ∧ related next nextView
    | none => related next view

variable {concrete : σ → ℓ → Option σ} {abstract : τ → κ → Option τ}
  {action : ℓ → Option κ} {related : σ → τ → Prop}

/-- A concrete run is matched by the abstract run of its actions. -/
theorem Simulates.exec (simulates : Simulates concrete abstract action related)
    {start final : σ} {view : τ} {labels : List ℓ} (initial : related start view)
    (run : exec concrete start labels = some final) :
    ∃ finalView, Foundation.exec abstract view (labels.filterMap action) = some finalView ∧
      related final finalView := by
  induction labels generalizing start view with
  | nil =>
      cases run
      exact ⟨view, rfl, initial⟩
  | cons label labels ih =>
      obtain ⟨next, stepped, rest⟩ := exec_cons_eq_some.mp run
      have matched := simulates start label next view initial stepped
      cases acts : action label with
      | none =>
          rw [acts] at matched
          rw [List.filterMap_cons_none acts]
          exact ih matched rest
      | some taken =>
          rw [acts] at matched
          obtain ⟨nextView, taking, nextRelated⟩ := matched
          obtain ⟨finalView, ran, finalRelated⟩ := ih nextRelated rest
          rw [List.filterMap_cons_some acts]
          exact ⟨finalView, exec_cons_eq_some.mpr ⟨nextView, taking, ran⟩, finalRelated⟩

end Kmwarp.Foundation
