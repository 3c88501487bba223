import Mathlib.Algebra.Group.Nat.Even
import Mathlib.Data.List.Induction

/-!
# Traces of windows

The items of a trace open a window, close it, belong inside one, or have
nothing to do with it.  A trace read item by item keeps to its windows when a
window is only opened while closed, and only closed or used while open.
-/

namespace Kmwarp.Foundation

universe u

inductive WindowRole where
  | opens
  | closes
  | inside
  | neutral
deriving DecidableEq, Repr

variable {ε : Type u} (role : ε → WindowRole)

/-- What one item leaves of a window, if it may occur there. -/
inductive WindowStep : WindowRole → Bool → Bool → Prop where
  | opens : WindowStep .opens false true
  | closes : WindowStep .closes true false
  | inside : WindowStep .inside true true
  | neutral (isOpen : Bool) : WindowStep .neutral isOpen isOpen

/-- The trace takes the window from the first state to the last. -/
inductive Windowed : Bool → List ε → Bool → Prop where
  | nil (isOpen : Bool) : Windowed isOpen [] isOpen
  | cons {start next final : Bool} {item : ε} {trace : List ε}
      (step : WindowStep (role item) start next) (rest : Windowed next trace final) :
      Windowed start (item :: trace) final

/-- The items that open or close a window. -/
def boundaries (trace : List ε) : List ε :=
  trace.filter fun item => role item = .opens ∨ role item = .closes

variable {role}

namespace Windowed

theorem append {start final : Bool} {first second : List ε} :
    Windowed role start (first ++ second) final ↔
      ∃ middle, Windowed role start first middle ∧ Windowed role middle second final := by
  induction first generalizing start with
  | nil =>
      constructor
      · intro trace
        exact ⟨start, .nil start, trace⟩
      · rintro ⟨middle, empty, trace⟩
        cases empty
        exact trace
  | cons item first ih =>
      constructor
      · intro trace
        cases trace with
        | cons step rest =>
            obtain ⟨middle, before, after⟩ := ih.mp rest
            exact ⟨middle, .cons step before, after⟩
      · rintro ⟨middle, trace, after⟩
        cases trace with
        | cons step before => exact .cons step (ih.mpr ⟨middle, before, after⟩)

/-- The window is open exactly when the last boundary opened it. -/
theorem isOpen_iff {final : Bool} {trace : List ε}
    (windowed : Windowed role false trace final) :
    final = true ↔
      ∃ item, (boundaries role trace).getLast? = some item ∧ role item = .opens := by
  induction trace using List.reverseRecOn generalizing final with
  | nil =>
      cases windowed
      simp [boundaries]
  | append_singleton trace item ih =>
      obtain ⟨middle, before, last⟩ := append.mp windowed
      have earlier := ih before
      cases last with
      | cons step rest =>
          cases rest
          cases itemRole : role item <;> rw [itemRole] at step <;> cases step <;>
            simp_all [boundaries, List.filter_append]

/-- Boundaries alternate, starting with the opening of a window. -/
theorem alternates {start final : Bool} {trace : List ε}
    (windowed : Windowed role start trace final) {before after : List ε} {item : ε}
    (split : boundaries role trace = before ++ item :: after) :
    role item = .opens ↔ (Even before.length ↔ start = false) := by
  induction windowed generalizing before with
  | nil => simp [boundaries] at split
  | @cons start next final head trace step rest ih =>
      by_cases boundary : role head = .opens ∨ role head = .closes
      · have headFirst : boundaries role (head :: trace) =
            head :: boundaries role trace := by
          simp [boundaries, boundary]
        rw [headFirst] at split
        have turned : next = !start ∧ (role head = .opens ↔ start = false) := by
          cases itemRole : role head <;> rw [itemRole] at step boundary <;>
            cases step <;> simp_all
        cases before with
        | nil =>
            obtain ⟨rfl, _⟩ := List.cons.inj split
            simp [turned.2]
        | cons first before =>
            obtain ⟨rfl, laterSplit⟩ := List.cons.inj split
            have later := ih laterSplit
            rw [later, turned.1, List.length_cons, Nat.even_add_one]
            cases start <;> simp
      · have skipped : boundaries role (head :: trace) = boundaries role trace := by
          simp [boundaries, boundary]
        have kept : next = start := by
          cases itemRole : role head <;> rw [itemRole] at step boundary <;>
            cases step <;> simp_all
        rw [skipped] at split
        rw [ih split, kept]

/-- An item that belongs inside a window stands behind an opened one. -/
theorem opened_before {final : Bool} {before after : List ε} {item : ε}
    (windowed : Windowed role false (before ++ item :: after) final)
    (belongs : role item = .inside) :
    ∃ opener, (boundaries role before).getLast? = some opener ∧
      role opener = .opens := by
  obtain ⟨middle, earlier, later⟩ := append.mp windowed
  cases later with
  | cons step rest =>
      rw [belongs] at step
      cases step
      exact (isOpen_iff earlier).mp rfl

end Windowed

end Kmwarp.Foundation
