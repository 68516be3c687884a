import Mathlib.Data.Set.Card
import Marvin.Data.KeyedList

namespace Marvin.Data

/-! Insertion-ordered maps, by the updates made to them.

A history lists the updates of a map, the latest first.  It says which keys are
present, with which values, and when each of them came in; a keyed list
represents the map when it agrees on all three.
-/

inductive Update (κ : Type u) (ν : Type v) where
  | set (key : κ) (value : ν)
  | remove (key : κ)
deriving DecidableEq, Repr

namespace Update

variable {κ : Type u} {ν : Type v}

def key : Update κ ν → κ
  | .set key _ => key
  | .remove key => key

def value? : Update κ ν → Option ν
  | .set _ value => some value
  | .remove _ => none

variable [DecidableEq κ]

/-- The value of the latest update of a key: none when it was never updated, or
removed last. -/
def lastValue (key : κ) (history : List (Update κ ν)) : Option ν :=
  (history.find? (fun update => update.key = key)).bind value?

/-- The time of the first insertion of a key since it was last removed. -/
def insertedAt (key : κ) : List (Update κ ν) → Option Nat
  | [] => none
  | .set other _ :: earlier =>
      if other = key then some ((insertedAt key earlier).getD earlier.length)
      else insertedAt key earlier
  | .remove other :: earlier => if other = key then none else insertedAt key earlier

def Precedes (history : List (Update κ ν)) (left right : κ) : Prop :=
  ∃ first ∈ insertedAt left history, ∃ second ∈ insertedAt right history, first < second

theorem lastValue_cons_self (update : Update κ ν) (history : List (Update κ ν)) :
    lastValue update.key (update :: history) = update.value? := by
  simp [lastValue]

theorem lastValue_cons_ne {update : Update κ ν} {key : κ} (different : update.key ≠ key)
    (history : List (Update κ ν)) : lastValue key (update :: history) = lastValue key history := by
  simp [lastValue, different]

theorem insertedAt_cons_ne {update : Update κ ν} {key : κ} (different : update.key ≠ key)
    (history : List (Update κ ν)) : insertedAt key (update :: history) = insertedAt key history := by
  cases update with
  | set other value => exact if_neg different
  | remove other => exact if_neg different

theorem insertedAt_lt {key : κ} {history : List (Update κ ν)} {time : Nat}
    (inserted : insertedAt key history = some time) : time < history.length := by
  induction history with
  | nil => cases inserted
  | cons update earlier ih =>
      by_cases same : update.key = key
      · cases update with
        | set other value =>
            have equal : other = key := same
            rw [insertedAt, if_pos equal, Option.some_inj] at inserted
            cases before : insertedAt key earlier with
            | none =>
                rw [before, Option.getD_none] at inserted
                simp [← inserted]
            | some old =>
                rw [before, Option.getD_some] at inserted
                subst inserted
                exact (ih before).trans (Nat.lt_succ_self _)
        | remove other =>
            have equal : other = key := same
            rw [insertedAt, if_pos equal] at inserted
            cases inserted
      · rw [insertedAt_cons_ne same] at inserted
        exact (ih inserted).trans (Nat.lt_succ_self _)

theorem insertedAt_eq_none {key : κ} {history : List (Update κ ν)} :
    insertedAt key history = none ↔ lastValue key history = none := by
  induction history with
  | nil => simp [insertedAt, lastValue]
  | cons update earlier ih =>
      by_cases same : update.key = key
      · subst same
        rw [lastValue_cons_self]
        cases update with
        | set other value => simp [insertedAt, key, value?]
        | remove other => simp [insertedAt, key, value?]
      · rw [insertedAt_cons_ne same, lastValue_cons_ne same, ih]

theorem insertedAt_set_of_present {key : κ} {value : ν} {history : List (Update κ ν)}
    (present : lastValue key history ≠ none) (other : κ) :
    insertedAt other (.set key value :: history) = insertedAt other history := by
  by_cases same : key = other
  · subst same
    obtain ⟨time, inserted⟩ := Option.ne_none_iff_exists'.mp (mt insertedAt_eq_none.mp present)
    rw [insertedAt, if_pos rfl, inserted, Option.getD_some]
  · have different : (Update.set key value).key ≠ other := same
    exact insertedAt_cons_ne different history

theorem Precedes.cons {history : List (Update κ ν)} {left right : κ} {update : Update κ ν}
    (before : Precedes history left right) (leftNe : update.key ≠ left)
    (rightNe : update.key ≠ right) : Precedes (update :: history) left right := by
  rw [Precedes, insertedAt_cons_ne leftNe, insertedAt_cons_ne rightNe]
  exact before

end Update

namespace KeyedList

variable {κ : Type u} {ν : Type v} [DecidableEq κ]

open Update

/-- The entries are those of the map, in the order in which their keys came in. -/
structure Lists (history : List (Update κ ν)) (entries : List (Entry κ ν)) : Prop where
  distinct : (keys entries).Nodup
  values (key : κ) : lookup key entries = lastValue key history
  ordered : (keys entries).Pairwise (Precedes history)

theorem Lists.mem_keys {history : List (Update κ ν)} {entries : List (Entry κ ν)}
    (lists : Lists history entries) {key : κ} :
    key ∈ keys entries ↔ lastValue key history ≠ none := by
  rw [← lists.values, Ne, lookup_eq_none, not_not]

theorem lookup_put_self (key : κ) (value : ν) (entries : List (Entry κ ν)) :
    lookup key (put key value entries) = some value := by
  induction entries with
  | nil => simp [put, lookup, restrict]
  | cons entry rest ih =>
      by_cases same : entry.key = key
      · simp [put, same, lookup, restrict]
      · simpa [put, same, lookup, restrict] using ih

theorem lookup_put_ne {key other : κ} (different : other ≠ key) (value : ν)
    (entries : List (Entry κ ν)) : lookup other (put key value entries) = lookup other entries := by
  rw [lookup, named_put_ne different, lookup]

theorem lookup_remove_ne {key other : κ} (different : other ≠ key) (entries : List (Entry κ ν)) :
    lookup other (remove key entries) = lookup other entries := by
  rw [lookup, named_remove_ne different, lookup]

theorem Lists.nil : Lists ([] : List (Update κ ν)) [] :=
  ⟨List.nodup_nil, fun _ => rfl, List.Pairwise.nil⟩

theorem Lists.put {history : List (Update κ ν)} {entries : List (Entry κ ν)}
    (lists : Lists history entries) (key : κ) (value : ν) :
    Lists (.set key value :: history) (put key value entries) := by
  refine ⟨nodup_keys_put lists.distinct, ?_, ?_⟩
  · intro other
    by_cases same : other = key
    · subst same
      rw [lookup_put_self]
      exact (lastValue_cons_self (.set other value) history).symm
    · rw [lookup_put_ne same, lastValue_cons_ne (Ne.symm same), lists.values]
  · by_cases present : key ∈ keys entries
    · rw [keys_put_of_mem present]
      refine lists.ordered.imp fun before => ?_
      rw [Precedes, insertedAt_set_of_present (lists.mem_keys.mp present),
        insertedAt_set_of_present (lists.mem_keys.mp present)]
      exact before
    · have absent : insertedAt key history = none := by
        rw [insertedAt_eq_none, ← lists.values, lookup_eq_none]
        exact present
      have latest : insertedAt key (.set key value :: history) = some history.length := by
        rw [insertedAt, if_pos rfl, absent, Option.getD_none]
      have others : ∀ other ∈ keys entries, key ≠ other := by
        intro other member same
        subst same
        exact present member
      rw [put_of_not_mem present, keys_append, List.pairwise_append]
      refine ⟨?_, List.pairwise_singleton _ _, ?_⟩
      · refine lists.ordered.imp_of_mem fun left right before => ?_
        exact before.cons (others _ left) (others _ right)
      · intro other member last isLast
        obtain rfl : last = key := by simpa [keys] using isLast
        obtain ⟨time, inserted⟩ := Option.ne_none_iff_exists'.mp
          (mt insertedAt_eq_none.mp (lists.mem_keys.mp member))
        refine ⟨time, ?_, history.length, latest, insertedAt_lt inserted⟩
        have different : (Update.set last value).key ≠ other := others other member
        rw [insertedAt_cons_ne different]
        exact inserted

theorem Lists.remove {history : List (Update κ ν)} {entries : List (Entry κ ν)}
    (lists : Lists history entries) (key : κ) :
    Lists (.remove key :: history) (remove key entries) := by
  refine ⟨nodup_keys_remove lists.distinct, ?_, ?_⟩
  · intro other
    by_cases same : other = key
    · subst same
      rw [lookup_eq_none.mpr (not_mem_keys_remove lists.distinct)]
      exact (lastValue_cons_self (.remove other) history).symm
    · rw [lookup_remove_ne same, lastValue_cons_ne (Ne.symm same), lists.values]
  · have others : ∀ other ∈ keys (KeyedList.remove key entries), key ≠ other := by
      intro other member
      exact Ne.symm ((mem_keys_remove lists.distinct).mp member).1
    refine (lists.ordered.sublist (keys_remove_sublist key entries)).imp_of_mem ?_
    intro left right leftMember rightMember before
    exact before.cons (others left leftMember) (others right rightMember)

theorem Lists.length_eq {history : List (Update κ ν)} {entries : List (Entry κ ν)}
    (lists : Lists history entries) :
    entries.length = Set.ncard { key | lastValue key history ≠ none } := by
  have same : { key | lastValue key history ≠ none } = ((keys entries).toFinset : Set κ) := by
    ext key
    simp [← lists.mem_keys]
  rw [same, Set.ncard_coe_finset, List.toFinset_card_of_nodup lists.distinct]
  simp [keys]

end KeyedList

end Marvin.Data
