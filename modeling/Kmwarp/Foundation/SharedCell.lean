import Mathlib.Data.List.Basic

/-!
# Shared cells

The owner of a cell reads and writes it, and others may replace its value in
between.  What the cell holds in the end is what the others left after the
owner's last access, or what the owner saw last.
-/

namespace Kmwarp.Foundation

universe u v

/-- A value the owner has read from the cell or written to it. -/
inductive Access (Value : Type u) where
  | read (value : Value)
  | write (value : Value)

/-- Values written by others, between the events of the owner. -/
abbrev Timeline (Value : Type u) (Event : Type v) : Type (max u v) :=
  List (Value ⊕ Event)

variable {Value : Type u} {Event : Type v}

namespace Access

def value : Access Value → Value
  | .read value | .write value => value

end Access

namespace Timeline

def own (timeline : Timeline Value Event) : List Event :=
  timeline.filterMap Sum.getRight?

variable (access : Event → Option (Access Value))

/-- The value of the cell after the timeline. -/
def contents (current : Value) : Timeline Value Event → Value
  | [] => current
  | .inl other :: later => contents other later
  | .inr event :: later =>
      match access event with
      | some (.write written) => contents written later
      | _ => contents current later

/-- Every read of the owner returns the value the cell has then. -/
def Consistent (current : Value) : Timeline Value Event → Prop
  | [] => True
  | .inl other :: later => Consistent other later
  | .inr event :: later =>
      match access event with
      | some (.write written) => Consistent written later
      | some (.read seen) => seen = current ∧ Consistent current later
      | none => Consistent current later

/-- What others have left in the cell since the owner's last access. -/
def disturbance (left : Option Value) : Timeline Value Event → Option Value
  | [] => left
  | .inl other :: later => disturbance (some other) later
  | .inr event :: later =>
      match access event with
      | some _ => disturbance none later
      | none => disturbance left later

/-- The value of the owner's last access. -/
def lastSeen (seen : Value) (events : List Event) : Value :=
  events.foldl (fun seen event => ((access event).map Access.value).getD seen) seen

variable {access}

/-- The induction carries what others have left so far and what the owner has
seen, the first of which hides the second. -/
theorem contents_getD {timeline : Timeline Value Event} :
    ∀ {left : Option Value} {seen : Value},
      Consistent access (left.getD seen) timeline →
        contents access (left.getD seen) timeline =
          (disturbance access left timeline).getD (lastSeen access seen (own timeline)) := by
  induction timeline with
  | nil => exact fun _ => rfl
  | cons head later ih =>
      intro left seen consistent
      cases head with
      | inl other => exact @ih (some other) seen consistent
      | inr event =>
          have seenLater : lastSeen access seen (own (.inr event :: later)) =
              lastSeen access (((access event).map Access.value).getD seen) (own later) :=
            rfl
          rw [seenLater]
          simp only [Consistent, contents, disturbance] at consistent ⊢
          cases accessed : access event with
          | none =>
              rw [accessed] at consistent
              exact ih consistent
          | some made =>
              rw [accessed] at consistent
              cases made with
              | read value =>
                  obtain ⟨rfl, consistent⟩ := consistent
                  exact @ih none _ consistent
              | write value => exact @ih none value consistent

/-- The cell holds what others left after the owner's last access, or else what
the owner saw last. -/
theorem contents_eq {current : Value} {timeline : Timeline Value Event}
    (consistent : Consistent access current timeline) :
    contents access current timeline =
      (disturbance access none timeline).getD (lastSeen access current (own timeline)) :=
  @contents_getD _ _ _ _ none current consistent

theorem contents_append (current : Value) (before after : Timeline Value Event) :
    contents access current (before ++ after) =
      contents access (contents access current before) after := by
  induction before generalizing current with
  | nil => rfl
  | cons head before ih =>
      cases head with
      | inl other => exact ih other
      | inr event =>
          simp only [List.cons_append, contents]
          split
          · exact ih _
          · exact ih current

theorem lastSeen_append {seen : Value} {before after : List Event} :
    lastSeen access seen (before ++ after) =
      lastSeen access (lastSeen access seen before) after :=
  List.foldl_append

/-- A part of a consistent timeline is consistent. -/
theorem consistent_of_append {before after : Timeline Value Event} {current : Value}
    (consistent : Consistent access current (before ++ after)) :
    Consistent access current before := by
  induction before generalizing current with
  | nil => trivial
  | cons head before ih =>
      cases head with
      | inl other => exact ih consistent
      | inr event =>
          simp only [List.cons_append, Consistent] at consistent ⊢
          split at consistent
          · exact ih consistent
          · exact ⟨consistent.1, ih consistent.2⟩
          · exact ih consistent

theorem own_append (before after : Timeline Value Event) :
    own (before ++ after) = own before ++ own after :=
  List.filterMap_append

/-! ## Without others -/

/-- The owner is alone with the cell. -/
def undisturbed (events : List Event) : Timeline Value Event :=
  events.map .inr

theorem own_undisturbed (events : List Event) :
    own (undisturbed events : Timeline Value Event) = events := by
  induction events with
  | nil => rfl
  | cons event events ih => exact congrArg (event :: ·) ih

theorem disturbance_undisturbed (events : List Event) :
    disturbance access none (undisturbed events) = none := by
  induction events with
  | nil => rfl
  | cons event events ih =>
      change (match access event with
        | some _ => disturbance access none (undisturbed events)
        | none => disturbance access none (undisturbed events)) = none
      rw [ih]
      split <;> rfl

end Timeline

end Kmwarp.Foundation
