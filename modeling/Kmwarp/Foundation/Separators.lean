import Mathlib.Data.List.Basic

/-!
# Between separators

What holds of every segment of a list between two neighbouring occurrences of a
separator.
-/

namespace Kmwarp.Foundation

universe u

variable {α : Type u}

/-- Every segment between neighbouring separators has the property. -/
def Between (separator : α) (property : List α → Prop) (items : List α) : Prop :=
  ∀ before segment after, items = before ++ separator :: (segment ++ separator :: after) →
    separator ∉ segment → property segment

variable {separator : α} {property : List α → Prop} {segment : List α}

/-- Nothing is between separators if there is only one. -/
theorem between_of_last (absent : separator ∉ segment) :
    Between separator property (separator :: segment) := by
  intro before inner after split _
  have twice : separator ∈ segment := by
    cases before with
    | nil =>
        obtain ⟨_, rfl⟩ := List.cons_eq_cons.mp split
        simp
    | cons head before =>
        obtain ⟨_, rfl⟩ := List.cons_eq_cons.mp split
        simp
  exact absurd twice absent

/-- Nothing is split off in front of a separator without the separator. -/
theorem eq_nil_of_cons_eq_append {middle part rest : List α}
    (split : separator :: rest = middle ++ part) (absent : separator ∉ middle) :
    middle = [] := by
  cases middle with
  | nil => rfl
  | cons item middle =>
      obtain ⟨rfl, _⟩ := List.cons_eq_cons.mp split
      exact absurd List.mem_cons_self absent

/-- The part in front of the first separator is determined. -/
theorem eq_of_append_cons {other rest after : List α} (absent : separator ∉ segment)
    (otherAbsent : separator ∉ other)
    (same : segment ++ separator :: rest = other ++ separator :: after) :
    segment = other := by
  rcases List.append_eq_append_iff.mp same with ⟨middle, rfl, split⟩ | ⟨middle, rfl, split⟩
  · rw [eq_nil_of_cons_eq_append split fun isIn => otherAbsent (List.mem_append_right _ isIn),
      List.append_nil]
  · rw [eq_nil_of_cons_eq_append split fun isIn => absent (List.mem_append_right _ isIn),
      List.append_nil]

/-- The first segment comes before all others. -/
theorem between_cons_append (absent : separator ∉ segment) (rest : List α) :
    Between separator property (separator :: (segment ++ separator :: rest)) ↔
      property segment ∧ Between separator property (separator :: rest) := by
  constructor
  · intro holds
    refine ⟨holds [] segment rest rfl absent, ?_⟩
    intro before inner after split innerAbsent
    refine holds (separator :: segment ++ before) inner after ?_ innerAbsent
    rw [split]
    simp
  · rintro ⟨first, later⟩ before inner after split innerAbsent
    cases before with
    | nil =>
        obtain ⟨_, same⟩ := List.cons_eq_cons.mp split
        obtain rfl := eq_of_append_cons absent innerAbsent same
        exact first
    | cons head before =>
        obtain ⟨_, same⟩ := List.cons_eq_cons.mp split
        rcases List.append_eq_append_iff.mp same with
          ⟨middle, rfl, inRest⟩ | ⟨middle, rfl, inSegment⟩
        · exact later middle inner after inRest innerAbsent
        · cases middle with
          | nil => exact later [] inner after inSegment.symm innerAbsent
          | cons item middle =>
              obtain ⟨rfl, _⟩ := List.cons_eq_cons.mp inSegment
              exact absurd (List.mem_append_right before List.mem_cons_self) absent

/-- What follows a separator in a longer list. -/
theorem forall_split_cons {α : Type u} {separator head : α} {tail : List α}
    {property : List α → Prop} :
    (∀ before after, head :: tail = before ++ separator :: after → property after) ↔
      (head = separator → property tail) ∧
        ∀ before after, tail = before ++ separator :: after → property after := by
  constructor
  · intro all
    refine ⟨fun isSeparator => all [] tail (by rw [isSeparator]; rfl), ?_⟩
    intro before after split
    exact all (head :: before) after (by rw [split, List.cons_append])
  · rintro ⟨here, later⟩ before after split
    cases before with
    | nil =>
        obtain ⟨isSeparator, rfl⟩ := List.cons_eq_cons.mp split
        exact here isSeparator
    | cons first before =>
        obtain ⟨rfl, rfl⟩ := List.cons_eq_cons.mp split
        exact later before after rfl

end Kmwarp.Foundation
