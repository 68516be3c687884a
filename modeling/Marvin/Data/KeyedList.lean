import Mathlib.Data.List.Induction
import Mathlib.Data.List.Nodup
import Mathlib.Data.List.Perm.Subperm

namespace Marvin.Data

/-! Ordered lists of keyed entries in which a key may occur several times.

Lookup, overwriting and removal act on the first entry with a key.  `restrict`
selects the entries whose keys satisfy a predicate; most facts about the other
operations are stated through it, because a client usually cares about a few
names and wants everything else framed out.
-/

structure Entry (κ : Type u) (ν : Type v) where
  key : κ
  value : ν
deriving DecidableEq, Repr

namespace KeyedList

variable {κ : Type u} {ν : Type v}

def keys (entries : List (Entry κ ν)) : List κ :=
  entries.map Entry.key

def restrict (select : κ → Bool) (entries : List (Entry κ ν)) : List (Entry κ ν) :=
  entries.filter (fun entry => select entry.key)

@[simp] theorem keys_append (left right : List (Entry κ ν)) :
    keys (left ++ right) = keys left ++ keys right :=
  List.map_append

theorem mem_keys_restrict {select : κ → Bool} {entries : List (Entry κ ν)} {key : κ} :
    key ∈ keys (restrict select entries) ↔ key ∈ keys entries ∧ select key = true := by
  simp only [keys, restrict, List.mem_map, List.mem_filter]
  constructor
  · intro given
    obtain ⟨entry, ⟨member, selected⟩, rfl⟩ := given
    exact ⟨⟨entry, member, rfl⟩, selected⟩
  · intro given
    obtain ⟨⟨entry, member, rfl⟩, selected⟩ := given
    exact ⟨entry, ⟨member, selected⟩, rfl⟩

theorem restrict_eq_nil {select : κ → Bool} {entries : List (Entry κ ν)}
    (absent : ∀ key ∈ keys entries, select key = false) : restrict select entries = [] := by
  rw [restrict, List.filter_eq_nil_iff]
  intro entry member
  simp [absent entry.key (List.mem_map_of_mem member)]

theorem restrict_restrict (select filter : κ → Bool) (entries : List (Entry κ ν)) :
    restrict select (restrict filter entries) =
      restrict (fun key => select key && filter key) entries :=
  List.filter_filter

variable [DecidableEq κ]

abbrev named (key : κ) (entries : List (Entry κ ν)) : List (Entry κ ν) :=
  restrict (fun other => decide (other = key)) entries

theorem named_eq_nil {key : κ} {entries : List (Entry κ ν)} :
    named key entries = [] ↔ key ∉ keys entries := by
  constructor
  · intro empty member
    have selected : key ∈ keys (named key entries) :=
      mem_keys_restrict.mpr ⟨member, decide_eq_true rfl⟩
    rw [empty] at selected
    cases selected
  · intro absent
    apply restrict_eq_nil
    intro other member
    exact decide_eq_false (fun same => absent (same ▸ member))

def lookup (key : κ) (entries : List (Entry κ ν)) : Option ν :=
  (named key entries).head?.map Entry.value

/-- Overwrites the first entry with the key, or appends a new one. -/
def put (key : κ) (value : ν) : List (Entry κ ν) → List (Entry κ ν)
  | [] => [⟨key, value⟩]
  | entry :: rest =>
      if entry.key = key then { entry with value } :: rest else entry :: put key value rest

def remove (key : κ) (entries : List (Entry κ ν)) : List (Entry κ ν) :=
  entries.eraseP (fun entry => entry.key = key)

def putAll (entries additions : List (Entry κ ν)) : List (Entry κ ν) :=
  additions.foldl (fun current entry => put entry.key entry.value current) entries

theorem put_of_not_mem {key : κ} {value : ν} {entries : List (Entry κ ν)}
    (absent : key ∉ keys entries) : put key value entries = entries ++ [⟨key, value⟩] := by
  induction entries with
  | nil => rfl
  | cons entry rest ih =>
      simp only [keys, List.map_cons, List.mem_cons, not_or] at absent
      rw [put, if_neg (Ne.symm absent.1), ih absent.2]
      rfl

theorem keys_put_of_mem {key : κ} {value : ν} {entries : List (Entry κ ν)}
    (present : key ∈ keys entries) : keys (put key value entries) = keys entries := by
  induction entries with
  | nil => cases present
  | cons entry rest ih =>
      by_cases same : entry.key = key
      · simp [put, same, keys]
      · have later : key ∈ keys rest := by
          rcases List.mem_cons.mp present with first | later
          · exact absurd first.symm same
          · exact later
        rw [put, if_neg same]
        exact congrArg (entry.key :: ·) (ih later)

theorem mem_put {key : κ} {value : ν} {entries : List (Entry κ ν)} {entry : Entry κ ν}
    (member : entry ∈ put key value entries) : entry = ⟨key, value⟩ ∨ entry ∈ entries := by
  induction entries with
  | nil => exact .inl (List.mem_singleton.mp member)
  | cons first rest ih =>
      rw [put] at member
      split at member
      · next same =>
          rcases List.mem_cons.mp member with here | later
          · exact .inl (by rw [here, same])
          · exact .inr (List.mem_cons_of_mem _ later)
      · rcases List.mem_cons.mp member with here | later
        · exact .inr (here ▸ List.mem_cons_self)
        · exact (ih later).imp_right (List.mem_cons_of_mem _)

theorem mem_keys_put {key other : κ} {value : ν} {entries : List (Entry κ ν)} :
    other ∈ keys (put key value entries) ↔ other = key ∨ other ∈ keys entries := by
  by_cases present : key ∈ keys entries
  · rw [keys_put_of_mem present]
    constructor
    · exact Or.inr
    · intro given
      rcases given with rfl | member
      · exact present
      · exact member
  · rw [put_of_not_mem present]
    simp [keys, or_comm]

theorem nodup_keys_put {key : κ} {value : ν} {entries : List (Entry κ ν)}
    (distinct : (keys entries).Nodup) : (keys (put key value entries)).Nodup := by
  by_cases present : key ∈ keys entries
  · rwa [keys_put_of_mem present]
  · rw [put_of_not_mem present, keys_append]
    exact List.Nodup.append distinct (by simp [keys]) (by simpa [keys] using present)

theorem restrict_put (select : κ → Bool) (key : κ) (value : ν) (entries : List (Entry κ ν)) :
    restrict select (put key value entries) =
      if select key then put key value (restrict select entries) else restrict select entries := by
  induction entries with
  | nil => cases chosen : select key <;> simp [put, restrict, chosen]
  | cons entry rest ih =>
      by_cases same : entry.key = key
      · subst same
        cases chosen : select entry.key <;> simp [put, restrict, chosen]
      · cases chosen : select entry.key <;> cases wanted : select key <;>
          simp_all [put, restrict]

theorem named_put_ne {key other : κ} (different : other ≠ key) (value : ν)
    (entries : List (Entry κ ν)) : named other (put key value entries) = named other entries := by
  rw [named, restrict_put]
  simp [Ne.symm different]

theorem key_of_mem_named {key : κ} {entries : List (Entry κ ν)} :
    ∀ entry ∈ named key entries, entry.key = key := by
  intro entry member
  simpa using (List.mem_filter.mp member).2

theorem named_subsingleton {key : κ} {entries : List (Entry κ ν)}
    (distinct : (keys entries).Nodup) :
    named key entries = [] ∨ ∃ value, named key entries = [⟨key, value⟩] := by
  have sameKey := @key_of_mem_named _ _ _ key entries
  have sorted : (keys (named key entries)).Nodup := distinct.sublist (List.filter_sublist.map _)
  match selected : named key entries with
  | [] => exact .inl rfl
  | [entry] =>
      have same := sameKey entry (by rw [selected]; exact List.mem_singleton_self _)
      exact .inr ⟨entry.value, by rw [← same]⟩
  | first :: second :: rest =>
      have one := sameKey first (by rw [selected]; simp)
      have two := sameKey second (by rw [selected]; simp)
      rw [selected] at sorted
      simp [keys, one, two] at sorted

/-- Of the entries with a key, the first is the one that is overwritten. -/
theorem named_put (key : κ) (value : ν) (entries : List (Entry κ ν)) :
    named key (put key value entries) = ⟨key, value⟩ :: (named key entries).tail := by
  have step : named key (put key value entries) = put key value (named key entries) := by
    rw [named, restrict_put, if_pos (decide_eq_true rfl)]
  rw [step]
  cases selected : named key entries with
  | nil => rfl
  | cons entry rest =>
      have same := key_of_mem_named entry (selected ▸ List.mem_cons_self)
      simp [put, same]

theorem named_put_self {key : κ} (value : ν) {entries : List (Entry κ ν)}
    (distinct : (keys entries).Nodup) : named key (put key value entries) = [⟨key, value⟩] := by
  rw [named_put]
  rcases @named_subsingleton _ _ _ key _ distinct with none | ⟨old, one⟩
  · rw [none]
    rfl
  · rw [one]
    rfl

theorem mem_put_of_nodup {key : κ} {value : ν} {entries : List (Entry κ ν)} {entry : Entry κ ν}
    (distinct : (keys entries).Nodup) (member : entry ∈ put key value entries) :
    entry = ⟨key, value⟩ ∨ entry ∈ entries ∧ entry.key ≠ key := by
  by_cases same : entry.key = key
  · have selected : entry ∈ named key (put key value entries) :=
      List.mem_filter.mpr ⟨member, decide_eq_true same⟩
    rw [named_put_self value distinct] at selected
    exact .inl (List.mem_singleton.mp selected)
  · rcases mem_put member with rfl | old
    · exact absurd rfl same
    · exact .inr ⟨old, same⟩

theorem mem_keys_putAll {entries additions : List (Entry κ ν)} {key : κ} :
    key ∈ keys (putAll entries additions) ↔ key ∈ keys entries ∨ key ∈ keys additions := by
  induction additions generalizing entries with
  | nil => simp [putAll, keys]
  | cons entry rest ih =>
      change key ∈ keys (putAll (put entry.key entry.value entries) rest) ↔ _
      rw [ih, mem_keys_put]
      simp only [keys, List.map_cons, List.mem_cons]
      tauto

theorem nodup_keys_putAll {entries additions : List (Entry κ ν)}
    (distinct : (keys entries).Nodup) : (keys (putAll entries additions)).Nodup := by
  induction additions generalizing entries with
  | nil => exact distinct
  | cons entry rest ih => exact ih (nodup_keys_put distinct)

theorem restrict_putAll (select : κ → Bool) (entries additions : List (Entry κ ν)) :
    restrict select (putAll entries additions) =
      putAll (restrict select entries) (restrict select additions) := by
  induction additions generalizing entries with
  | nil => rfl
  | cons entry rest ih =>
      change restrict select (putAll (put entry.key entry.value entries) rest) = _
      rw [ih, restrict_put]
      cases chosen : select entry.key <;> simp [restrict, chosen, putAll]

theorem putAll_eq_append {entries additions : List (Entry κ ν)}
    (distinct : (keys (entries ++ additions)).Nodup) :
    putAll entries additions = entries ++ additions := by
  induction additions generalizing entries with
  | nil => simp [putAll]
  | cons entry rest ih =>
      have fresh : entry.key ∉ keys entries := by
        rw [keys_append, List.nodup_append] at distinct
        intro member
        exact distinct.2.2 _ member _ List.mem_cons_self rfl
      have step : put entry.key entry.value entries = entries ++ [entry] := put_of_not_mem fresh
      change putAll (put entry.key entry.value entries) rest = _
      rw [step, ih (by simpa using distinct), List.append_assoc]
      rfl

/-- Putting a whole list into an empty one reproduces it exactly when no key
is repeated. -/
theorem putAll_nil_eq_iff {additions : List (Entry κ ν)} :
    putAll [] additions = additions ↔ (keys additions).Nodup := by
  constructor
  · intro same
    rw [← same]
    exact nodup_keys_putAll List.nodup_nil
  · intro distinct
    simpa using @putAll_eq_append _ _ _ [] additions (by simpa using distinct)

theorem restrict_remove (select : κ → Bool) {key : κ} (ignored : select key = false)
    (entries : List (Entry κ ν)) : restrict select (remove key entries) = restrict select entries := by
  induction entries with
  | nil => rfl
  | cons entry rest ih =>
      by_cases same : entry.key = key
      · subst same
        simp [remove, restrict, ignored]
      · have step : remove key (entry :: rest) = entry :: remove key rest := by
          simp [remove, same]
        rw [step]
        cases chosen : select entry.key <;> simp_all [restrict]

theorem named_remove_ne {key other : κ} (different : other ≠ key) (entries : List (Entry κ ν)) :
    named other (remove key entries) = named other entries :=
  restrict_remove (fun name => decide (name = other)) (decide_eq_false (Ne.symm different)) entries

theorem named_remove_self (key : κ) (entries : List (Entry κ ν)) :
    named key (remove key entries) = (named key entries).tail := by
  induction entries with
  | nil => rfl
  | cons entry rest ih =>
      by_cases same : entry.key = key
      · simp [remove, restrict, same]
      · have step : remove key (entry :: rest) = entry :: remove key rest := by
          simp [remove, same]
        rw [step]
        simpa [restrict, same] using ih

theorem lookup_eq_none {key : κ} {entries : List (Entry κ ν)} :
    lookup key entries = none ↔ key ∉ keys entries := by
  rw [lookup, Option.map_eq_none_iff, List.head?_eq_none_iff, named_eq_nil]

/-- Removing a key leaves none of its entries exactly when there was at most one. -/
theorem not_mem_keys_remove_iff {key : κ} {entries : List (Entry κ ν)} :
    key ∉ keys (remove key entries) ↔ (named key entries).length ≤ 1 := by
  rw [← named_eq_nil, named_remove_self]
  match named key entries with
  | [] => simp
  | [entry] => simp
  | first :: second :: rest => simp

theorem keys_remove_sublist (key : κ) (entries : List (Entry κ ν)) :
    (keys (remove key entries)).Sublist (keys entries) :=
  List.eraseP_sublist.map _

theorem nodup_keys_remove {key : κ} {entries : List (Entry κ ν)}
    (distinct : (keys entries).Nodup) : (keys (remove key entries)).Nodup :=
  distinct.sublist (keys_remove_sublist key entries)

theorem not_mem_keys_remove {key : κ} {entries : List (Entry κ ν)}
    (distinct : (keys entries).Nodup) : key ∉ keys (remove key entries) := by
  induction entries with
  | nil => simp [remove, keys]
  | cons entry rest ih =>
      simp only [keys, List.map_cons, List.nodup_cons] at distinct
      by_cases same : entry.key = key
      · subst same
        simpa [remove, keys] using distinct.1
      · have step : remove key (entry :: rest) = entry :: remove key rest := by
          simp [remove, same]
        rw [step]
        simp only [keys, List.map_cons, List.mem_cons, not_or]
        exact ⟨Ne.symm same, ih distinct.2⟩

theorem mem_keys_remove {key other : κ} {entries : List (Entry κ ν)}
    (distinct : (keys entries).Nodup) :
    other ∈ keys (remove key entries) ↔ other ≠ key ∧ other ∈ keys entries := by
  refine ⟨fun member => ⟨?_, (keys_remove_sublist key entries).subset member⟩,
    fun ⟨different, member⟩ => ?_⟩
  · intro same
    subst same
    exact not_mem_keys_remove distinct member
  · have selected : other ∈ keys (named other entries) :=
      mem_keys_restrict.mpr ⟨member, decide_eq_true rfl⟩
    rw [← named_remove_ne different] at selected
    exact (mem_keys_restrict.mp selected).1

theorem mem_remove_of_nodup {key : κ} {entries : List (Entry κ ν)} {entry : Entry κ ν}
    (distinct : (keys entries).Nodup) (member : entry ∈ remove key entries) :
    entry ∈ entries ∧ entry.key ≠ key := by
  have listed : entry.key ∈ keys (remove key entries) := List.mem_map_of_mem member
  exact ⟨List.eraseP_sublist.subset member, ((mem_keys_remove distinct).mp listed).1⟩

theorem keys_remove (key : κ) (entries : List (Entry κ ν)) :
    keys (remove key entries) = (keys entries).erase key := by
  induction entries with
  | nil => rfl
  | cons entry rest ih =>
      by_cases same : entry.key = key
      · simp [remove, keys, same]
      · have step : remove key (entry :: rest) = entry :: remove key rest := by
          simp [remove, same]
        have front : keys (entry :: rest) = entry.key :: keys rest := rfl
        rw [step, front, List.erase_cons_tail (by simpa using same), ← ih]
        rfl

theorem mem_of_lookup {key : κ} {value : ν} {entries : List (Entry κ ν)}
    (found : lookup key entries = some value) : ⟨key, value⟩ ∈ entries := by
  obtain ⟨entry, first, rfl⟩ := Option.map_eq_some_iff.mp found
  have member := List.mem_of_mem_head? first
  obtain rfl := key_of_mem_named entry member
  exact (List.mem_filter.mp member).1

theorem put_of_lookup {key : κ} {value : ν} {entries : List (Entry κ ν)}
    (present : lookup key entries = some value) : put key value entries = entries := by
  induction entries with
  | nil => cases present
  | cons entry rest ih =>
      by_cases same : entry.key = key
      · have first : entry.value = value := by
          simpa [lookup, named, restrict, same] using present
        rw [put, if_pos same, ← first]
      · have later : lookup key rest = some value := by
          simpa [lookup, named, restrict, same] using present
        rw [put, if_neg same, ih later]

def removeAll (names : List κ) (entries : List (Entry κ ν)) : List (Entry κ ν) :=
  names.foldl (fun current name => remove name current) entries

theorem nodup_keys_removeAll {names : List κ} {entries : List (Entry κ ν)}
    (distinct : (keys entries).Nodup) : (keys (removeAll names entries)).Nodup := by
  induction names generalizing entries with
  | nil => exact distinct
  | cons name rest ih => exact ih (nodup_keys_remove distinct)

theorem mem_keys_removeAll {names : List κ} {entries : List (Entry κ ν)} {key : κ}
    (distinct : (keys entries).Nodup) :
    key ∈ keys (removeAll names entries) ↔ key ∉ names ∧ key ∈ keys entries := by
  induction names generalizing entries with
  | nil => simp [removeAll]
  | cons name rest ih =>
      change key ∈ keys (removeAll rest (remove name entries)) ↔ _
      rw [ih (nodup_keys_remove distinct), mem_keys_remove distinct, List.mem_cons, not_or]
      tauto

theorem restrict_removeAll (select : κ → Bool) {names : List κ}
    (ignored : ∀ name ∈ names, select name = false) (entries : List (Entry κ ν)) :
    restrict select (removeAll names entries) = restrict select entries := by
  induction names generalizing entries with
  | nil => rfl
  | cons name rest ih =>
      change restrict select (removeAll rest (remove name entries)) = _
      rw [ih (fun other member => ignored other (List.mem_cons_of_mem _ member)),
        restrict_remove select (ignored name List.mem_cons_self)]

theorem named_removeAll {key : κ} {names : List κ} (absent : key ∉ names)
    (entries : List (Entry κ ν)) : named key (removeAll names entries) = named key entries := by
  apply restrict_removeAll
  intro name member
  exact decide_eq_false (fun same => absent (same ▸ member))

theorem named_putAll (key : κ) (entries additions : List (Entry κ ν)) :
    named key (putAll entries additions) = putAll (named key entries) (named key additions) :=
  restrict_putAll _ entries additions

/-- Of several entries with one key, the last is the one that stays. -/
theorem putAll_nil_same {key : κ} {entries : List (Entry κ ν)}
    (sameKey : ∀ entry ∈ entries, entry.key = key) :
    putAll [] entries = entries.getLast?.toList := by
  induction entries using List.reverseRecOn with
  | nil => rfl
  | append_singleton front last ih =>
      have step : putAll [] (front ++ [last]) = put last.key last.value (putAll [] front) :=
        List.foldl_append
      rw [step, ih (fun entry member => sameKey entry (List.mem_append_left _ member))]
      rcases List.eq_nil_or_concat front with rfl | ⟨start, previous, rfl⟩
      · rfl
      · have same : previous.key = last.key := by
          rw [sameKey previous (by simp), sameKey last (by simp)]
        simp [put, same]

end KeyedList

end Marvin.Data
