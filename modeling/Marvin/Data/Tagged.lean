import Mathlib.Data.List.Basic

namespace Marvin.Data

/-! Lists of tagged values, and the values that carry a tag, in order.

A queue or a log that several parties share is a list of values tagged with the
party; `tagged` is what one of them sees of it.
-/

variable {τ : Type u} {α : Type v} [DecidableEq τ]

def tagged (tag : τ) (entries : List (τ × α)) : List α :=
  (entries.filter (fun entry => entry.1 = tag)).map Prod.snd

@[simp] theorem tagged_nil (tag : τ) : tagged tag ([] : List (τ × α)) = [] := rfl

@[simp] theorem tagged_cons_self (tag : τ) (value : α) (entries : List (τ × α)) :
    tagged tag ((tag, value) :: entries) = value :: tagged tag entries := by
  simp [tagged]

theorem tagged_cons_ne {tag other : τ} (different : other ≠ tag) (value : α)
    (entries : List (τ × α)) : tagged tag ((other, value) :: entries) = tagged tag entries := by
  simp [tagged, different]

@[simp] theorem tagged_append (tag : τ) (left right : List (τ × α)) :
    tagged tag (left ++ right) = tagged tag left ++ tagged tag right := by
  simp [tagged]

theorem tagged_concat_self (tag : τ) (value : α) (entries : List (τ × α)) :
    tagged tag (entries ++ [(tag, value)]) = tagged tag entries ++ [value] := by
  simp

theorem tagged_concat_ne {tag other : τ} (different : other ≠ tag) (value : α)
    (entries : List (τ × α)) : tagged tag (entries ++ [(other, value)]) = tagged tag entries := by
  simp [tagged_cons_ne different]

@[simp] theorem tagged_map_self (tag : τ) (values : List α) :
    tagged tag (values.map (Prod.mk tag)) = values := by
  induction values with
  | nil => rfl
  | cons value rest ih => rw [List.map_cons, tagged_cons_self, ih]

theorem tagged_map_ne {tag other : τ} (different : other ≠ tag) (values : List α) :
    tagged tag (values.map (Prod.mk other)) = [] := by
  induction values with
  | nil => rfl
  | cons value rest ih => rw [List.map_cons, tagged_cons_ne different, ih]

theorem mem_tagged {tag : τ} {value : α} {entries : List (τ × α)} :
    value ∈ tagged tag entries ↔ (tag, value) ∈ entries := by
  simp [tagged]

theorem count_tagged [DecidableEq α] (tag : τ) (value : α) (entries : List (τ × α)) :
    (tagged tag entries).count value = entries.count (tag, value) := by
  induction entries with
  | nil => rfl
  | cons entry rest ih =>
      obtain ⟨other, held⟩ := entry
      by_cases same : other = tag
      · subst same
        rw [tagged_cons_self, List.count_cons, List.count_cons, ih]
        simp
      · rw [tagged_cons_ne same, List.count_cons, ih]
        simp [same]

theorem sublist_tagged {tag : τ} {values : List α} {entries : List (τ × α)}
    (inside : (values.map (Prod.mk tag)).Sublist entries) : values.Sublist (tagged tag entries) := by
  have chosen := (inside.filter (fun entry => decide (entry.1 = tag))).map Prod.snd
  change (tagged tag (values.map (Prod.mk tag))).Sublist (tagged tag entries) at chosen
  rwa [tagged_map_self] at chosen

end Marvin.Data
