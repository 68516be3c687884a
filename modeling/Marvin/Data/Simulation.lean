import Marvin.Data.KeyedList
import Marvin.Data.Transition

namespace Marvin.Data

/-! Simulations between transition systems, in which a step of the concrete system
is a step of the abstract one or leaves it where it is, and keyed lists seen through a
view of their values.
-/

/-- The forward simulation rule. -/
theorem Transition.Reaches.simulated {α : Type u} {ι : Type v} {β : Type w} {κ : Type x}
    {concrete : Transition α ι} {abstract : Transition β κ} {guard : α → ι → Prop}
    {related : α → β → Prop}
    (starts : ∀ {state}, concrete.initial state → ∃ other, abstract.initial other ∧ related state other)
    (moves : ∀ {state label next other}, related state other → guard state label →
      concrete.step state label next → related next other ∨
        ∃ answer after, abstract.step other answer after ∧ related next after)
    {state : α} (reached : concrete.Reaches guard state) :
    ∃ other, abstract.Reaches unguarded other ∧ related state other := by
  induction reached with
  | initial start =>
      obtain ⟨other, begins, relates⟩ := starts start
      exact ⟨other, .initial begins, relates⟩
  | step _ allowed taken ih =>
      obtain ⟨other, reached, relates⟩ := ih
      rcases moves relates allowed taken with stays | ⟨answer, after, moved, follows⟩
      · exact ⟨other, reached, stays⟩
      · exact ⟨after, .step reached trivial moved, follows⟩

namespace KeyedList

variable {κ : Type u} {ν : Type v} {μ : Type w} (view : ν → μ)

def mapValues (entries : List (Entry κ ν)) : List (Entry κ μ) :=
  entries.map fun entry => ⟨entry.key, view entry.value⟩

theorem mapValues_append (left right : List (Entry κ ν)) :
    mapValues view (left ++ right) = mapValues view left ++ mapValues view right :=
  List.map_append

variable [DecidableEq κ]

theorem lookup_mapValues (key : κ) (entries : List (Entry κ ν)) :
    lookup key (mapValues view entries) = (lookup key entries).map view := by
  have same : named key (mapValues view entries) = mapValues view (named key entries) :=
    List.filter_map
  rw [lookup, lookup, same, mapValues, List.head?_map, Option.map_map, Option.map_map]
  rfl

theorem mapValues_put (key : κ) (value : ν) (entries : List (Entry κ ν)) :
    mapValues view (put key value entries) = put key (view value) (mapValues view entries) := by
  induction entries with
  | nil => rfl
  | cons entry rest ih =>
      simp only [put, mapValues, List.map_cons] at ih ⊢
      split
      · rfl
      · rw [← ih, List.map_cons]

theorem mapValues_remove (key : κ) (entries : List (Entry κ ν)) :
    mapValues view (remove key entries) = remove key (mapValues view entries) := by
  rw [remove, remove, mapValues, mapValues, List.eraseP_map]
  rfl

end KeyedList

end Marvin.Data
