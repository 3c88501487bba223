import Mathlib.Data.List.Nodup
import Mathlib.Data.Nat.Bitwise

/-!
# Tables of pairs

A table is a list of pairs that is searched from either side.  The searches invert each
other when no entry repeats a key or a value.
-/

namespace Kmwarp.Foundation

universe u v w x

variable {α : Type u} {β : Type v} {γ : Type w} [DecidableEq α] [DecidableEq β]

/-- The value of the first entry with this key. -/
def valueOf (table : List (α × β)) (key : α) : Option β :=
  (table.find? fun entry => entry.1 == key).map Prod.snd

/-- The key of the first entry with this value. -/
def keyOf (table : List (α × β)) (value : β) : Option α :=
  (table.find? fun entry => entry.2 == value).map Prod.fst

/-- No two entries agree on either side. -/
structure OneToOne (table : List (α × β)) : Prop where
  keys : (table.map Prod.fst).Nodup
  values : (table.map Prod.snd).Nodup

/-! ## A check that looks at every code once -/

/-- Whether the codes differ from each other and from those whose bits are set in `seen`. -/
def distinctFrom : Nat → List Nat → Bool
  | _, [] => true
  | seen, code :: rest => !seen.testBit code && distinctFrom (seen ||| 1 <<< code) rest

theorem nodup_of_distinctFrom {codes : List Nat} {seen : Nat} (distinct : distinctFrom seen codes) :
    (∀ code ∈ codes, seen.testBit code = false) ∧ codes.Nodup := by
  induction codes generalizing seen with
  | nil => exact ⟨by simp, List.nodup_nil⟩
  | cons code rest ih =>
      simp only [distinctFrom, Bool.and_eq_true, Bool.not_eq_true'] at distinct
      obtain ⟨unseen, restDistinct⟩ := distinct
      obtain ⟨restUnseen, restNodup⟩ := ih restDistinct
      have notSet : ∀ other ∈ rest, seen.testBit other = false ∧ code ≠ other := by
        intro other member
        have bit := restUnseen other member
        rw [Nat.testBit_or, Bool.or_eq_false_iff, Nat.one_shiftLeft,
          Nat.testBit_two_pow, decide_eq_false_iff_not] at bit
        exact bit
      constructor
      · rw [List.forall_mem_cons]
        exact ⟨unseen, fun other member => (notSet other member).1⟩
      · exact List.nodup_cons.mpr ⟨fun member => (notSet code member).2 rfl, restNodup⟩

omit [DecidableEq α] [DecidableEq β] in
/-- A table is one to one if the codes of its keys differ, and those of its values. -/
theorem oneToOne_of_distinctFrom {table : List (α × β)} (keyCode : α → Nat) (valueCode : β → Nat)
    (keys : distinctFrom 0 (table.map fun entry => keyCode entry.1))
    (values : distinctFrom 0 (table.map fun entry => valueCode entry.2)) : OneToOne table where
  keys := by
    have codes := (nodup_of_distinctFrom keys).2
    rw [show (fun entry : α × β => keyCode entry.1) = keyCode ∘ Prod.fst from rfl,
      ← List.map_map] at codes
    exact List.Nodup.of_map _ codes
  values := by
    have codes := (nodup_of_distinctFrom values).2
    rw [show (fun entry : α × β => valueCode entry.2) = valueCode ∘ Prod.snd from rfl,
      ← List.map_map] at codes
    exact List.Nodup.of_map _ codes

/-- An entry is found under its name, when names are not repeated. -/
private theorem find?_eq_some_iff_of_nodup {ε : Type x} [DecidableEq γ] {name : ε → γ}
    {entries : List ε} (distinct : (entries.map name).Nodup) {sought : γ} {entry : ε} :
    (entries.find? fun other => name other == sought) = some entry ↔
      entry ∈ entries ∧ name entry = sought := by
  constructor
  · intro found
    exact ⟨List.mem_of_find?_eq_some found, by simpa using List.find?_some found⟩
  · rintro ⟨member, rfl⟩
    obtain ⟨found, isFound⟩ : ∃ found,
        (entries.find? fun other => name other == name entry) = some found :=
      Option.isSome_iff_exists.mp (List.find?_isSome.mpr ⟨entry, member, by simp⟩)
    have sameName : name found = name entry := by simpa using List.find?_some isFound
    rw [isFound, List.inj_on_of_nodup_map distinct (List.mem_of_find?_eq_some isFound) member
      sameName]

namespace OneToOne

variable {table : List (α × β)}

omit [DecidableEq β] in
theorem valueOf_eq_some_iff (oneToOne : OneToOne table) {key : α} {value : β} :
    valueOf table key = some value ↔ (key, value) ∈ table := by
  simp only [valueOf, Option.map_eq_some_iff, find?_eq_some_iff_of_nodup oneToOne.keys]
  constructor
  · rintro ⟨entry, ⟨member, rfl⟩, rfl⟩
    exact member
  · intro member
    exact ⟨_, ⟨member, rfl⟩, rfl⟩

omit [DecidableEq α] in
theorem keyOf_eq_some_iff (oneToOne : OneToOne table) {key : α} {value : β} :
    keyOf table value = some key ↔ (key, value) ∈ table := by
  simp only [keyOf, Option.map_eq_some_iff, find?_eq_some_iff_of_nodup oneToOne.values]
  constructor
  · rintro ⟨entry, ⟨member, rfl⟩, rfl⟩
    exact member
  · intro member
    exact ⟨_, ⟨member, rfl⟩, rfl⟩

/-- The two searches invert each other. -/
theorem valueOf_iff_keyOf (oneToOne : OneToOne table) {key : α} {value : β} :
    valueOf table key = some value ↔ keyOf table value = some key :=
  oneToOne.valueOf_eq_some_iff.trans oneToOne.keyOf_eq_some_iff.symm

/-- Keys with the same value are the same. -/
theorem valueOf_injective (oneToOne : OneToOne table) {key other : α} {value : β}
    (found : valueOf table key = some value) (alsoFound : valueOf table other = some value) :
    key = other := by
  rw [oneToOne.valueOf_iff_keyOf] at found alsoFound
  rw [found] at alsoFound
  exact Option.some.inj alsoFound

end OneToOne

end Kmwarp.Foundation
