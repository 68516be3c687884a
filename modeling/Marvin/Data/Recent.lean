import Mathlib.Data.List.DropRight
import Mathlib.Data.List.Nodup

namespace Marvin.Data

/-! Stores that keep the most recent of what was put into them.

A window of a history is its end of bounded length.  A store with one window for
every key, and a bounded number of keys, drops the key that was inserted first; a
key that comes again after it was dropped is inserted anew.
-/

variable {α : Type u} {κ : Type v}

/-- Takes elements away at the front until no more than the limit are left. -/
def shrink (limit : Nat) : List α → List α
  | [] => []
  | first :: rest =>
      if limit < (first :: rest).length then shrink limit rest else first :: rest

theorem shrink_eq_rtake (limit : Nat) (elements : List α) :
    shrink limit elements = elements.rtake limit := by
  induction elements with
  | nil => simp [shrink]
  | cons first rest ih =>
      rw [shrink]
      by_cases full : limit < (first :: rest).length
      · have more : rest.length + 1 - limit = rest.length - limit + 1 := by
          simp only [List.length_cons] at full
          omega
        rw [if_pos full, ih, List.rtake, List.rtake, List.length_cons, more, List.drop_succ_cons]
      · rw [if_neg full, List.rtake, Nat.sub_eq_zero_of_le (Nat.le_of_not_lt full), List.drop_zero]

theorem rtake_rtake_succ (elements : List α) (limit : Nat) :
    (elements.rtake (limit + 1)).rtake limit = elements.rtake limit := by
  rw [List.rtake, List.rtake, List.rtake, List.drop_drop, List.length_drop]
  congr 1
  omega

theorem map_rtake {β : Type w} (f : α → β) (elements : List α) (limit : Nat) :
    (elements.rtake limit).map f = (elements.map f).rtake limit := by
  rw [List.rtake, List.rtake, List.map_drop, List.length_map]

/-- One more element in a full window. -/
theorem shrink_window (elements : List α) (limit : Nat) (element : α) :
    shrink limit (elements.rtake (limit + 1)) ++ [element] =
      (elements ++ [element]).rtake (limit + 1) := by
  rw [shrink_eq_rtake, rtake_rtake_succ, List.rtake_concat_succ]

section Insertions

variable [DecidableEq κ] (key : α → κ) (limit : Nat)

/-- The elements seen so far and the insertions among them: an element inserts
its key if that is not one of the keys that were inserted last. -/
def insertNext (state : Nat × List (Nat × κ)) (element : α) : Nat × List (Nat × κ) :=
  (state.1 + 1,
    if key element ∈ (state.2.rtake limit).map Prod.snd then state.2
    else state.2 ++ [(state.1, key element)])

/-- The positions in a history at which a key was inserted, with the key. -/
def insertions (history : List α) : List (Nat × κ) :=
  (history.foldl (insertNext key limit) (0, [])).2

/-- The keys in the store, with the position at which each was inserted. -/
def resident (history : List α) : List (Nat × κ) :=
  (insertions key limit history).rtake limit

/-- What a store with windows holds after a history. -/
def windows (size : Nat) (history : List α) : List (κ × List α) :=
  (resident key limit history).map fun (position, name) =>
    (name, ((history.drop position).filter fun element => key element = name).rtake size)

variable {key limit}

theorem foldl_insertNext_fst (history : List α) (start : Nat × List (Nat × κ)) :
    (history.foldl (insertNext key limit) start).1 = start.1 + history.length := by
  induction history generalizing start with
  | nil => rfl
  | cons element rest ih =>
      rw [List.foldl_cons, ih, List.length_cons]
      simp only [insertNext]
      omega

theorem insertions_concat (history : List α) (element : α) :
    insertions key limit (history ++ [element]) =
      if key element ∈ (resident key limit history).map Prod.snd then insertions key limit history
      else insertions key limit history ++ [(history.length, key element)] := by
  have count := @foldl_insertNext_fst _ _ _ key limit history (0, [])
  rw [insertions, List.foldl_append, List.foldl_cons, List.foldl_nil]
  simp only [insertNext, count, Nat.zero_add]
  rfl

theorem insertions_lt (history : List α) :
    ∀ insertion ∈ insertions key limit history, insertion.1 < history.length := by
  induction history using List.reverseRecOn with
  | nil => exact nofun
  | append_singleton history element ih =>
      intro insertion member
      rw [insertions_concat] at member
      rw [List.length_append, List.length_singleton]
      split at member
      · exact Nat.lt_succ_of_lt (ih insertion member)
      · rcases List.mem_append.mp member with old | new
        · exact Nat.lt_succ_of_lt (ih insertion old)
        · rw [List.mem_singleton.mp new]
          exact Nat.lt_succ_self _

theorem resident_lt {history : List α} {insertion : Nat × κ}
    (member : insertion ∈ resident key limit history) : insertion.1 < history.length :=
  insertions_lt history insertion (List.mem_of_mem_drop member)

theorem resident_present {history : List α} {element : α}
    (present : key element ∈ (resident key limit history).map Prod.snd) :
    resident key limit (history ++ [element]) = resident key limit history := by
  rw [resident, insertions_concat, if_pos present, resident]

theorem resident_absent {history : List α} {element : α}
    (absent : key element ∉ (resident key (limit + 1) history).map Prod.snd) :
    resident key (limit + 1) (history ++ [element]) =
      shrink limit (resident key (limit + 1) history) ++ [(history.length, key element)] := by
  rw [resident, insertions_concat, if_neg absent, resident, shrink_window]

theorem resident_nodup (history : List α) :
    ((resident key (limit + 1) history).map Prod.snd).Nodup := by
  induction history using List.reverseRecOn with
  | nil => simp [resident, insertions]
  | append_singleton history element ih =>
      by_cases present : key element ∈ (resident key (limit + 1) history).map Prod.snd
      · rw [resident_present present]
        exact ih
      · have kept := (List.drop_sublist ((resident key (limit + 1) history).length - limit)
          (resident key (limit + 1) history)).map Prod.snd
        rw [resident_absent present, shrink_eq_rtake, List.map_append, List.map_singleton,
          List.nodup_append]
        refine ⟨ih.sublist kept, List.nodup_singleton _, ?_⟩
        intro name old other new same
        obtain rfl : name = key element := same.trans (List.mem_singleton.mp new)
        exact present (kept.subset old)

theorem windows_keys (size : Nat) (history : List α) :
    (windows key limit size history).map Prod.fst = (resident key limit history).map Prod.snd := by
  rw [windows, List.map_map]
  rfl

theorem windows_nodup (size : Nat) (history : List α) :
    ((windows key (limit + 1) size history).map Prod.fst).Nodup := by
  rw [windows_keys]
  exact resident_nodup history

/-- What has come for a key since a position, after one more element. -/
theorem filter_drop_concat {history : List α} {position : Nat} (before : position < history.length)
    (element : α) (name : κ) :
    ((history ++ [element]).drop position).filter (fun other => key other = name) =
      (history.drop position).filter (fun other => key other = name) ++
        if key element = name then [element] else [] := by
  rw [List.drop_append_of_le_length (Nat.le_of_lt before), List.filter_append]
  congr 1
  by_cases same : key element = name
  · simp [same]
  · simp [same]

theorem windows_present {size : Nat} {history : List α} {element : α}
    (present : key element ∈ (resident key limit history).map Prod.snd) :
    windows key limit (size + 1) (history ++ [element]) =
      (windows key limit (size + 1) history).map fun (name, window) =>
        if name = key element then (name, shrink size window ++ [element]) else (name, window) := by
  rw [windows, resident_present present, windows, List.map_map]
  apply List.map_congr_left
  intro insertion member
  obtain ⟨position, name⟩ := insertion
  simp only [Function.comp_apply, filter_drop_concat (resident_lt member)]
  by_cases same : name = key element
  · rw [if_pos same, if_pos same.symm, shrink_window]
  · rw [if_neg same, if_neg (Ne.symm same), List.append_nil]

theorem windows_absent {size : Nat} {history : List α} {element : α}
    (absent : key element ∉ (resident key (limit + 1) history).map Prod.snd) :
    windows key (limit + 1) (size + 1) (history ++ [element]) =
      shrink limit (windows key (limit + 1) (size + 1) history) ++ [(key element, [element])] := by
  rw [windows, resident_absent absent, shrink_eq_rtake, shrink_eq_rtake, windows, ← map_rtake,
    List.map_append, List.map_singleton]
  congr 1
  · apply List.map_congr_left
    intro insertion member
    obtain ⟨position, name⟩ := insertion
    have inside := List.mem_of_mem_drop member
    have different : key element ≠ name := fun same =>
      absent (same ▸ List.mem_map_of_mem inside)
    simp only [filter_drop_concat (resident_lt inside), if_neg different, List.append_nil]
  · simp [List.rtake]

end Insertions

end Marvin.Data
