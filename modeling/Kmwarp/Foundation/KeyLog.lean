import Mathlib.Data.List.Induction

/-!
# Logs of key transitions

A log records presses and releases in order, and may be unbalanced: a key can
be pressed twice or released while it is up.  `lastOf` reads off the last
transition of one key, and a key is pressed after a log when that transition
is a press.
-/

namespace Kmwarp.Foundation

universe u v

/-- One press (`down = true`) or release (`down = false`) of a key. -/
structure KeyTransition (κ : Type u) where
  key : κ
  down : Bool
deriving DecidableEq, Repr

variable {κ : Type u} [DecidableEq κ]

/-- The direction of the last transition of `key`, if it has any. -/
def lastOf (log : List (KeyTransition κ)) (key : κ) : Option Bool :=
  log.foldl
    (fun last transition =>
      if transition.key = key then some transition.down else last)
    none

/-- The last transition of `key` is a press. -/
def Pressed (log : List (KeyTransition κ)) (key : κ) : Prop :=
  lastOf log key = some true

instance (log : List (KeyTransition κ)) (key : κ) : Decidable (Pressed log key) :=
  inferInstanceAs (Decidable (_ = _))

@[simp] theorem lastOf_nil (key : κ) : lastOf ([] : List (KeyTransition κ)) key = none :=
  rfl

@[simp] theorem lastOf_concat (log : List (KeyTransition κ))
    (transition : KeyTransition κ) (key : κ) :
    lastOf (log ++ [transition]) key =
      if transition.key = key then some transition.down else lastOf log key := by
  simp [lastOf]

theorem lastOf_append (first second : List (KeyTransition κ)) (key : κ) :
    lastOf (first ++ second) key =
      (lastOf second key).or (lastOf first key) := by
  induction second using List.reverseRecOn with
  | nil => simp
  | append_singleton second transition ih =>
      rw [← List.append_assoc, lastOf_concat, lastOf_concat, ih]
      split <;> simp

@[simp] theorem not_pressed_nil (key : κ) :
    ¬ Pressed ([] : List (KeyTransition κ)) key := by
  simp [Pressed]

theorem pressed_concat (log : List (KeyTransition κ))
    (transition : KeyTransition κ) (key : κ) :
    Pressed (log ++ [transition]) key ↔
      if transition.key = key then transition.down = true else Pressed log key := by
  unfold Pressed
  rw [lastOf_concat]
  split <;> simp

/-- A burst of releases, one for each listed key. -/
def releases (keys : List κ) : List (KeyTransition κ) :=
  keys.map fun key => ⟨key, false⟩

theorem lastOf_releases (keys : List κ) (key : κ) :
    lastOf (releases keys) key = if key ∈ keys then some false else none := by
  induction keys using List.reverseRecOn with
  | nil => simp [releases]
  | append_singleton keys last ih =>
      simp only [releases, List.map_append, List.map_cons, List.map_nil,
        lastOf_concat] at ih ⊢
      rw [ih]
      by_cases same : last = key
      · simp [same]
      · simp [same, Ne.symm same]

/-- A burst of releases clears exactly the keys it lists. -/
theorem pressed_append_releases (log : List (KeyTransition κ))
    (keys : List κ) (key : κ) :
    Pressed (log ++ releases keys) key ↔ Pressed log key ∧ key ∉ keys := by
  unfold Pressed
  rw [lastOf_append, lastOf_releases]
  by_cases member : key ∈ keys <;> simp [member]

/-- A key is not pressed exactly when each of its presses has a later
release. -/
theorem not_pressed_iff_every_press_released
    (log : List (KeyTransition κ)) (key : κ) :
    ¬ Pressed log key ↔
      ∀ before after, log = before ++ ⟨key, true⟩ :: after →
        ⟨key, false⟩ ∈ after := by
  constructor
  · intro notPressed before after split
    by_contra absent
    apply notPressed
    have noRelease : lastOf after key = none ∨ lastOf after key = some true := by
      clear split notPressed
      induction after using List.reverseRecOn with
      | nil => exact .inl rfl
      | append_singleton after last ih =>
          simp only [List.mem_append, List.mem_singleton, not_or] at absent
          obtain ⟨absentInit, absentLast⟩ := absent
          rw [lastOf_concat]
          by_cases same : last.key = key
          · have pressedLast : last.down = true := by
              by_contra released
              exact absentLast (by cases last; simp_all)
            simp [same, pressedLast]
          · simpa [same] using ih absentInit
    rw [Pressed, split, List.append_cons, lastOf_append, lastOf_concat]
    rcases noRelease with none | pressed
    · simp [none]
    · simp [pressed]
  · intro released pressed
    induction log using List.reverseRecOn with
    | nil => simp at pressed
    | append_singleton log last ih =>
        rw [pressed_concat] at pressed
        by_cases same : last.key = key
        · rw [if_pos same] at pressed
          have isPress : last = ⟨key, true⟩ := by cases last; simp_all
          have := released log [] (by rw [isPress])
          simp at this
        · rw [if_neg same] at pressed
          refine ih (fun before after split => ?_) pressed
          have member := released before (after ++ [last]) (by simp [split])
          rcases List.mem_append.mp member with inside | atEnd
          · exact inside
          · rw [List.mem_singleton] at atEnd
            exact absurd (by rw [← atEnd]) same

/-- A key is pressed after a log because of its end or because it is left alone there. -/
theorem pressed_append_cases {first second : List (KeyTransition κ)} {key : κ}
    (pressed : Pressed (first ++ second) key) :
    ⟨key, true⟩ ∈ second ∨
      Pressed first key ∧ ∀ transition ∈ second, transition.key ≠ key := by
  induction second using List.reverseRecOn with
  | nil => exact .inr ⟨by simpa using pressed, nofun⟩
  | append_singleton second last ih =>
      rw [← List.append_assoc, pressed_concat] at pressed
      by_cases same : last.key = key
      · rw [if_pos same] at pressed
        have isPress : last = ⟨key, true⟩ := by rw [← same, ← pressed]
        exact .inl (by simp [isPress])
      · rw [if_neg same] at pressed
        rcases ih pressed with member | ⟨before, alone⟩
        · exact .inl (List.mem_append_left _ member)
        · exact .inr ⟨before, List.forall_mem_append.mpr ⟨alone, by simpa using same⟩⟩

/-- A key that does not stay pressed is released. -/
theorem release_mem_of_pressed {first second : List (KeyTransition κ)} {key : κ}
    (pressed : Pressed first key) (released : ¬ Pressed (first ++ second) key) :
    ⟨key, false⟩ ∈ second := by
  by_contra absent
  refine (not_pressed_iff_every_press_released first key).mpr ?_ pressed
  rintro before after rfl
  have later := (not_pressed_iff_every_press_released _ key).mp released before
    (after ++ second) (by simp)
  exact (List.mem_append.mp later).resolve_right absent

theorem exists_mem_of_pressed {log : List (KeyTransition κ)} {key : κ}
    (pressed : Pressed log key) : ∃ transition ∈ log, transition.key = key := by
  by_contra absent
  refine (not_pressed_iff_every_press_released log key).mpr ?_ pressed
  rintro before after rfl
  exact absurd ⟨⟨key, true⟩, by simp, rfl⟩ absent

instance decidableForallPressed (log : List (KeyTransition κ)) (property : κ → Prop)
    [DecidablePred property] : Decidable (∀ key, Pressed log key → property key) :=
  decidable_of_iff (∀ transition ∈ log, Pressed log transition.key → property transition.key)
    ⟨fun listed _ pressed =>
      let ⟨transition, member, isKey⟩ := exists_mem_of_pressed pressed
      isKey ▸ listed transition member (isKey ▸ pressed),
    fun all transition _ => all transition.key⟩

instance decidableExistsPressed (log : List (KeyTransition κ)) (property : κ → Prop)
    [DecidablePred property] : Decidable (∃ key, Pressed log key ∧ property key) :=
  decidable_of_iff (∃ transition ∈ log, Pressed log transition.key ∧ property transition.key)
    ⟨fun ⟨transition, _, holds⟩ => ⟨transition.key, holds⟩,
    fun ⟨_, pressed, holds⟩ =>
      let ⟨transition, member, isKey⟩ := exists_mem_of_pressed pressed
      ⟨transition, member, isKey ▸ pressed, isKey ▸ holds⟩⟩

/-! ## Renamed keys -/

variable {ι : Type v} [DecidableEq ι] {rename : κ → ι} {log : List (KeyTransition κ)}
  {renamed : List (KeyTransition ι)}

/-- The keys pressed after `renamed` are the new names of those pressed after `log`. -/
def PressesImage (rename : κ → ι) (log : List (KeyTransition κ))
    (renamed : List (KeyTransition ι)) : Prop :=
  ∀ name, Pressed renamed name ↔ ∃ key, Pressed log key ∧ rename key = name

/-- A press is always mirrored under its new name. -/
theorem PressesImage.press (image : PressesImage rename log renamed) (key : κ) :
    PressesImage rename (log ++ [⟨key, true⟩]) (renamed ++ [⟨rename key, true⟩]) := by
  intro name
  simp only [pressed_concat]
  by_cases same : rename key = name
  · rw [if_pos same]
    exact iff_of_true trivial ⟨key, by simp, same⟩
  · rw [if_neg same, image name]
    constructor
    · rintro ⟨other, pressed, isName⟩
      have distinct : key ≠ other := fun isKey => same (isKey ▸ isName)
      exact ⟨other, by rwa [if_neg distinct], isName⟩
    · rintro ⟨other, pressed, isName⟩
      have distinct : key ≠ other := fun isKey => same (isKey ▸ isName)
      rw [if_neg distinct] at pressed
      exact ⟨other, pressed, isName⟩

/-- A release is mirrored exactly if no other pressed key has the same new name. -/
theorem PressesImage.release_iff (image : PressesImage rename log renamed) (key : κ) :
    PressesImage rename (log ++ [⟨key, false⟩]) (renamed ++ [⟨rename key, false⟩]) ↔
      ∀ other, Pressed log other → rename other = rename key → other = key := by
  have after : ∀ other, Pressed (log ++ [⟨key, false⟩]) other ↔
      Pressed log other ∧ other ≠ key := by
    intro other
    rw [pressed_concat]
    by_cases same : key = other
    · simp [same]
    · simp [same, Ne.symm same]
  constructor
  · intro mirrored other pressed sameName
    by_contra distinct
    have stillPressed := (mirrored (rename key)).mpr
      ⟨other, (after other).mpr ⟨pressed, distinct⟩, sameName⟩
    simp [pressed_concat] at stillPressed
  · intro alone name
    rw [pressed_concat]
    by_cases same : rename key = name
    · rw [if_pos same]
      refine iff_of_false Bool.false_ne_true ?_
      rintro ⟨other, pressed, isName⟩
      obtain ⟨before, distinct⟩ := (after other).mp pressed
      exact distinct (alone other before (isName.trans same.symm))
    · rw [if_neg same, image name]
      refine exists_congr fun other => and_congr_left fun isName => ?_
      have distinct : other ≠ key := fun isKey => same (isKey ▸ isName)
      rw [after, and_iff_left distinct]

/-! ## Keys without a new name -/

/-- The log under new names, without the keys that have none. -/
def renameLog (name? : κ → Option ι) (log : List (KeyTransition κ)) : List (KeyTransition ι) :=
  log.filterMap fun transition => (name? transition.key).map (⟨·, transition.down⟩)

omit [DecidableEq κ] [DecidableEq ι] in
theorem renameLog_append (name? : κ → Option ι) (first second : List (KeyTransition κ)) :
    renameLog name? (first ++ second) = renameLog name? first ++ renameLog name? second :=
  List.filterMap_append

/-- When names are not shared, the keys pressed are those with a pressed name. -/
theorem pressed_renameLog_iff {name? : κ → Option ι}
    (injective : ∀ {key other name}, name? key = some name → name? other = some name →
      key = other)
    (log : List (KeyTransition κ)) (name : ι) :
    Pressed (renameLog name? log) name ↔ ∃ key, Pressed log key ∧ name? key = some name := by
  induction log using List.reverseRecOn with
  | nil => simp [renameLog]
  | append_singleton log last ih =>
      rw [renameLog_append]
      cases named : name? last.key with
      | none =>
          have lost : renameLog name? [last] = [] := by simp [renameLog, named]
          rw [lost, List.append_nil, ih]
          refine exists_congr fun key => and_congr_left fun isName => ?_
          have distinct : last.key ≠ key := fun same => by simp [← same, named] at isName
          rw [pressed_concat, if_neg distinct]
      | some lastName =>
          have renamed : renameLog name? [last] = [⟨lastName, last.down⟩] := by
            simp [renameLog, named]
          rw [renamed, pressed_concat]
          by_cases same : lastName = name
          · subst same
            rw [if_pos rfl]
            constructor
            · intro down
              exact ⟨last.key, by simpa [pressed_concat] using down, named⟩
            · rintro ⟨key, pressed, isName⟩
              rw [injective isName named] at pressed
              simpa [pressed_concat] using pressed
          · rw [if_neg same, ih]
            refine exists_congr fun key => and_congr_left fun isName => ?_
            have distinct : last.key ≠ key := fun sameKey =>
              same (Option.some.inj (named.symm.trans (sameKey ▸ isName)))
            rw [pressed_concat, if_neg distinct]

/-! ## Refused transitions -/

/-- The transitions that were not refused. -/
def takenLog (attempts : List (KeyTransition κ × Bool)) : List (KeyTransition κ) :=
  attempts.filterMap fun attempt => if attempt.2 then some attempt.1 else none

omit [DecidableEq κ] in
theorem takenLog_concat (attempts : List (KeyTransition κ × Bool))
    (transition : KeyTransition κ) (taken : Bool) :
    takenLog (attempts ++ [(transition, taken)]) =
      takenLog attempts ++ if taken then [transition] else [] := by
  cases taken <;> simp [takenLog]

/-- A key that stays pressed although it should not be is one whose last transition, a
release, was refused. -/
theorem refused_release_of_pressed {attempts : List (KeyTransition κ × Bool)} {key : κ}
    (pressed : Pressed (takenLog attempts) key)
    (released : ¬ Pressed (attempts.map Prod.fst) key) :
    ∃ before after, attempts = before ++ (⟨key, false⟩, false) :: after ∧
      ∀ attempt ∈ after, attempt.1.key ≠ key := by
  induction attempts using List.reverseRecOn with
  | nil => simp [takenLog] at pressed
  | append_singleton attempts last ih =>
      obtain ⟨transition, taken⟩ := last
      rw [takenLog_concat] at pressed
      rw [List.map_append, List.map_singleton, pressed_concat] at released
      by_cases same : transition.key = key
      · have isRelease : transition = ⟨key, false⟩ := by
          rw [if_pos same] at released
          cases transition
          simp_all
        subst isRelease
        cases taken with
        | true => simp [pressed_concat] at pressed
        | false => exact ⟨attempts, [], rfl, nofun⟩
      · rw [if_neg same] at released
        have before : Pressed (takenLog attempts) key := by
          cases taken with
          | true => simpa [pressed_concat, same] using pressed
          | false => simpa using pressed
        obtain ⟨first, after, split, alone⟩ := ih before released
        refine ⟨first, after ++ [(transition, taken)], by simp [split], ?_⟩
        exact List.forall_mem_append.mpr ⟨alone, by simpa using same⟩

end Kmwarp.Foundation
