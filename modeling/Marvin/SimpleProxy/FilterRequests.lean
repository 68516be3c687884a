import Marvin.SimpleProxy.CtlApp

namespace Marvin.SimpleProxy

open Marvin.Data

/-! # Editing the filters

What a path does to the list of filters: an index goes through `atoi` to an `int`
and from there to a `size_t`, and of the parts between the slashes only the first
two are looked at.
-/

theorem find_filter_iff {path : Bytes} :
    find path = some .filter ↔
      ∃ rest, path = ascii "/filter" ++ rest ∧ ∀ byte ∈ rest, notLineEnd byte = true := by
  have stop := Regex.matchWhole_literal (ascii "/stop") path
  have filter := @Regex.matchWhole_starting _ _ _ (ascii "/filter") path notLineEnd
  have bodies := @Regex.matchWhole_starting _ _ _ (ascii "/bodies_") path notLineEnd
  rw [← filter]
  constructor
  · intro found
    simp only [find, dispatchTable, List.find?_cons] at found
    split at found
    · cases found
    · split at found
      · next matched => exact matched
      · split at found <;> cases found
  · intro matched
    have other : (Regex.word (· == ·) (ascii "/stop") .empty).matchWhole path = false := by
      rw [← Bool.not_eq_true, stop]
      obtain ⟨rest, same, _⟩ := filter.mp matched
      intro equal
      rw [equal] at same
      cases same
    simp [find, dispatchTable, other, matched]

/-- The path of a request with a parameter. -/
def commandPath (command text : Bytes) : Bytes :=
  slash :: (command ++ slash :: text)

theorem splitPath_command {command text : Bytes} (plain : slash ∉ command) :
    splitPath (commandPath command text) = command :: text.splitOnP (· == slash) := by
  have none : ∀ byte ∈ command, (byte == slash) = false := by
    intro byte member
    exact beq_false_of_ne fun same => plain (same ▸ member)
  rw [splitPath, commandPath, List.head?_cons, if_pos rfl, List.tail_cons]
  exact List.splitOnP_append_cons_of_forall_mem none slash (beq_self_eq_true slash) text

theorem commandPath_inj {command other text rest : Bytes} (plain : slash ∉ command)
    (bare : slash ∉ other) (same : commandPath command text = commandPath other rest) :
    command = other ∧ text = rest := by
  have parts := congrArg splitPath same
  rw [splitPath_command plain, splitPath_command bare, List.cons.injEq] at parts
  obtain ⟨rfl, _⟩ := parts
  simpa [commandPath] using same

theorem isNumber_plain {text : Bytes} (number : isNumber text = true) : slash ∉ text := by
  intro member
  rw [isNumber, Bool.and_eq_true, List.all_eq_true] at number
  exact absurd (number.2 slash member) (by decide)

def filterRemove : Bytes := ascii "filter_remove"

def filterAdd : Bytes := ascii "filter_add"

theorem filterRemove_plain : slash ∉ filterRemove := by decide

theorem filterAdd_plain : slash ∉ filterAdd := by decide

theorem removePath_inj {text rest : Bytes}
    (same : commandPath filterRemove text = commandPath filterRemove rest) : text = rest :=
  (commandPath_inj filterRemove_plain filterRemove_plain same).2

theorem addPath_inj {text rest : Bytes}
    (same : commandPath filterAdd text = commandPath filterAdd rest) : text = rest :=
  (commandPath_inj filterAdd_plain filterAdd_plain same).2

theorem removePath_ne_addPath (text rest : Bytes) :
    commandPath filterRemove text ≠ commandPath filterAdd rest := by
  intro same
  have commands := (commandPath_inj filterRemove_plain filterAdd_plain same).1
  exact absurd commands (by decide)

/-! ## What a path is to do, and when it does -/

/-- The filters after a request, by its path. -/
structure Specified (filters after : List Bytes) (path : Bytes) : Prop where
  remove (digits : Bytes) : path = commandPath filterRemove digits → isNumber digits = true →
    after = if digitsValue digits < filters.length then filters.eraseIdx (digitsValue digits)
      else filters
  add (text : Bytes) : path = commandPath filterAdd text → after = filters ++ [text]
  other : (∀ digits, path = commandPath filterRemove digits → isNumber digits = false) →
    (∀ text, path ≠ commandPath filterAdd text) → after = filters

/-- The paths that are read as they are meant: the filters between the number and
the index made of it are equal, or there are none there; a number with more text
behind it is not an index of the list; and a new filter has no slash in it. -/
structure Spared (filters : List Bytes) (path : Bytes) : Prop where
  remove (digits : Bytes) : path = commandPath filterRemove digits → isNumber digits = true →
    ∀ position, min (digitsValue digits) (filterIndex digits) ≤ position →
      position < max (digitsValue digits) (filterIndex digits) →
      filters[position]? = filters[position + 1]?
  trailing (digits rest : Bytes) : path = commandPath filterRemove (digits ++ slash :: rest) →
    isNumber digits = true → filters.length ≤ filterIndex digits
  add (text : Bytes) : path = commandPath filterAdd text → slash ∉ text

variable {filters after : List Bytes} {path : Bytes}

theorem erase_within (filters : List Bytes) (position : Nat) :
    (if position < filters.length then filters.eraseIdx position else filters) =
      filters.eraseIdx position := by
  by_cases inside : position < filters.length
  · rw [if_pos inside]
  · rw [if_neg inside, List.eraseIdx_of_length_le (Nat.le_of_not_lt inside)]

theorem specified_remove {text : Bytes} :
    Specified filters after (commandPath filterRemove text) ↔
      after = if isNumber text then filters.eraseIdx (digitsValue text) else filters := by
  have notAdd := removePath_ne_addPath text
  cases number : isNumber text with
  | true =>
      rw [if_pos rfl, ← erase_within]
      constructor
      · intro specified
        exact specified.remove text rfl number
      · intro removed
        refine ⟨fun digits same _ => ?_, fun other same => absurd same (notAdd other), fun none => ?_⟩
        · rw [← removePath_inj same]
          exact removed
        · rw [none text rfl] at number
          cases number
  | false =>
      rw [if_neg Bool.false_ne_true]
      constructor
      · intro specified
        refine specified.other (fun digits same => ?_) notAdd
        rw [← removePath_inj same]
        exact number
      · intro kept
        refine ⟨fun digits same valid => ?_, fun other same => absurd same (notAdd other),
          fun _ _ => kept⟩
        rw [← removePath_inj same, number] at valid
        cases valid

theorem specified_add {text : Bytes} :
    Specified filters after (commandPath filterAdd text) ↔ after = filters ++ [text] := by
  constructor
  · intro specified
    exact specified.add text rfl
  · intro added
    refine ⟨fun digits same => absurd same.symm (removePath_ne_addPath digits text),
      fun other same => ?_, fun _ none => absurd rfl (none text)⟩
    rw [← addPath_inj same]
    exact added

theorem specified_other (notRemove : ∀ text, path ≠ commandPath filterRemove text)
    (notAdd : ∀ text, path ≠ commandPath filterAdd text) :
    Specified filters after path ↔ after = filters := by
  constructor
  · intro specified
    exact specified.other (fun digits same => absurd same (notRemove digits)) notAdd
  · intro kept
    exact ⟨fun digits same => absurd same (notRemove digits),
      fun text same => absurd same (notAdd text), fun _ _ => kept⟩

theorem spared_add {text : Bytes} :
    Spared filters (commandPath filterAdd text) ↔ slash ∉ text := by
  constructor
  · intro spared
    exact spared.add text rfl
  · intro plain
    exact ⟨fun digits same => absurd same.symm (removePath_ne_addPath digits text),
      fun _ _ same => absurd same.symm (removePath_ne_addPath _ text),
      fun other same => addPath_inj same ▸ plain⟩

theorem spared_other (notRemove : ∀ text, path ≠ commandPath filterRemove text)
    (notAdd : ∀ text, path ≠ commandPath filterAdd text) : Spared filters path :=
  ⟨fun digits same => absurd same (notRemove digits),
    fun _ _ same => absurd same (notRemove _), fun text same => absurd same (notAdd text)⟩

/-! ## What the handler does -/

theorem editFilters_remove (filters : List Bytes) (parameter : Bytes) (more : List Bytes) :
    (editFilters filters (filterRemove :: parameter :: more)).1 =
      if isNumber parameter then filters.eraseIdx (filterIndex parameter) else filters := by
  rw [← erase_within]
  have notList : filterRemove ≠ ascii "filter_list" := by decide
  have isRemove : filterRemove = ascii "filter_remove" := rfl
  simp only [editFilters, if_neg notList, if_pos isRemove]
  split
  · split <;> rfl
  · rfl

theorem editFilters_add (filters : List Bytes) (parameter : Bytes) (more : List Bytes) :
    (editFilters filters (filterAdd :: parameter :: more)).1 = filters ++ [parameter] := by
  have notList : filterAdd ≠ ascii "filter_list" := by decide
  have notRemove : filterAdd ≠ ascii "filter_remove" := by decide
  have isAdd : filterAdd = ascii "filter_add" := rfl
  simp only [editFilters, if_neg notList, if_neg notRemove, if_pos isAdd]

theorem editFilters_other {command : Bytes} (notRemove : command ≠ filterRemove)
    (notAdd : command ≠ filterAdd) (filters parameters : List Bytes) :
    (editFilters filters (command :: parameters)).1 = filters := by
  have first : ¬ command = ascii "filter_remove" := notRemove
  have second : ¬ command = ascii "filter_add" := notAdd
  simp only [editFilters, if_neg first, if_neg second]
  split <;> rfl

theorem editFilters_single (filters : List Bytes) (command : Bytes) :
    (editFilters filters [command]).1 = filters := by
  simp only [editFilters]
  repeat' split
  all_goals rfl

theorem remove_as_specified_iff (filters : List Bytes) (text : Bytes) :
    Specified filters (editFilters filters (splitPath (commandPath filterRemove text))).1
        (commandPath filterRemove text) ↔
      Spared filters (commandPath filterRemove text) := by
  have notAdd := removePath_ne_addPath text
  rw [splitPath_command filterRemove_plain, specified_remove]
  rcases splitOnP_byte_cases slash text with ⟨plain, split⟩ | ⟨first, rest, plain, same, split⟩
  · rw [split, editFilters_remove]
    constructor
    · intro done
      refine ⟨fun digits same number => ?_, fun digits rest same => ?_,
        fun other same => absurd same (notAdd other)⟩
      · rw [← removePath_inj same] at number ⊢
        rw [if_pos number, if_pos number] at done
        rw [min_comm, max_comm]
        exact eraseIdx_eq_iff.mp done
      · rw [removePath_inj same] at plain
        simp at plain
    · intro spared
      cases number : isNumber text with
      | false => rfl
      | true =>
          rw [if_pos rfl, if_pos rfl, eraseIdx_eq_iff, min_comm, max_comm]
          exact spared.remove text rfl number
  · have number : isNumber text = false := by
      rw [← Bool.not_eq_true]
      intro number
      apply isNumber_plain number
      rw [same]
      simp
    rw [split, editFilters_remove, number, if_neg Bool.false_ne_true]
    constructor
    · intro kept
      refine ⟨fun digits same valid => ?_, fun digits more again valid => ?_,
        fun other same => absurd same (notAdd other)⟩
      · rw [← removePath_inj same, number] at valid
        cases valid
      · have parts : digits = first ∧ more = rest :=
          commandPath_inj (isNumber_plain valid) plain
            (congrArg (slash :: ·) ((removePath_inj again).symm.trans same))
        rw [parts.1] at valid ⊢
        rw [if_pos valid] at kept
        exact List.eraseIdx_eq_self.mp kept
    · intro spared
      split
      · next valid =>
          exact List.eraseIdx_of_length_le (spared.trailing first rest (by rw [same]) valid)
      · rfl

theorem add_as_specified_iff (filters : List Bytes) (text : Bytes) :
    Specified filters (editFilters filters (splitPath (commandPath filterAdd text))).1
        (commandPath filterAdd text) ↔
      Spared filters (commandPath filterAdd text) := by
  rw [splitPath_command filterAdd_plain, specified_add, spared_add]
  rcases splitOnP_byte_cases slash text with ⟨plain, split⟩ | ⟨first, rest, plain, same, split⟩
  · rw [split, editFilters_add]
    simp [plain]
  · rw [split, editFilters_add, same]
    simp

/-- A request that the table sends to the filter handler edits the filters as its
path says exactly when the path is spared. -/
theorem filter_request_as_specified_iff {path : Bytes} (dispatched : find path = some .filter)
    (proxy : Proxy) :
    Specified proxy.filters (pHandleFilter proxy (splitPath path)).1.filters path ↔
      Spared proxy.filters path := by
  change Specified proxy.filters (editFilters proxy.filters (splitPath path)).1 path ↔ _
  obtain ⟨tail, same, _⟩ := find_filter_iff.mp dispatched
  obtain ⟨text, rfl⟩ : ∃ text, path = slash :: text := ⟨_, same⟩
  have parts : splitPath (slash :: text) = text.splitOnP (· == slash) := by
    rw [splitPath, List.head?_cons, if_pos rfl, List.tail_cons]
  rcases splitOnP_byte_cases slash text with ⟨plain, split⟩ | ⟨command, rest, plain, same, split⟩
  · have no (command other : Bytes) : slash :: text ≠ commandPath command other := by
      intro same
      rw [commandPath, List.cons.injEq] at same
      rw [same.2] at plain
      simp at plain
    rw [parts, split, editFilters_single, specified_other (no filterRemove) (no filterAdd)]
    exact iff_of_true rfl (spared_other (no filterRemove) (no filterAdd))
  · obtain rfl : text = command ++ slash :: rest := same
    change Specified _ (editFilters _ (splitPath (commandPath command rest))).1
      (commandPath command rest) ↔ Spared _ (commandPath command rest)
    by_cases isRemove : command = filterRemove
    · rw [isRemove]
      exact remove_as_specified_iff proxy.filters rest
    · by_cases isAdd : command = filterAdd
      · rw [isAdd]
        exact add_as_specified_iff proxy.filters rest
      · have notRemove (other : Bytes) : commandPath command rest ≠ commandPath filterRemove other :=
          fun same => isRemove (commandPath_inj plain filterRemove_plain same).1
        have notAdd (other : Bytes) : commandPath command rest ≠ commandPath filterAdd other :=
          fun same => isAdd (commandPath_inj plain filterAdd_plain same).1
        rw [splitPath_command plain, editFilters_other isRemove isAdd,
          specified_other notRemove notAdd]
        exact iff_of_true rfl (spared_other notRemove notAdd)

/-- A plain host pattern is added as it is. -/
theorem host_pattern_added :
    find (ascii "/filter_add/example.com") = some .filter ∧
      Specified [] (pHandleFilter ⟨[], false⟩ (splitPath (ascii "/filter_add/example.com"))).1.filters
        (ascii "/filter_add/example.com") := by
  have dispatched : find (ascii "/filter_add/example.com") = some .filter := by decide
  refine ⟨dispatched, (filter_request_as_specified_iff dispatched ⟨[], false⟩).mpr ?_⟩
  have plain : slash ∉ ascii "example.com" := by decide
  exact (@spared_add [] (ascii "example.com")).mpr plain

/-- The index 2^32 is beyond a list of one filter and removes its first one. -/
theorem large_index_removes_filter :
    find (ascii "/filter_remove/4294967296") = some .filter ∧
      (pHandleFilter ⟨[ascii "example.com"], false⟩
        (splitPath (ascii "/filter_remove/4294967296"))).1.filters = [] ∧
      ¬ Specified [ascii "example.com"] [] (ascii "/filter_remove/4294967296") := by
  refine ⟨by decide, by decide, fun specified => ?_⟩
  have kept := specified.remove (ascii "4294967296") (by decide) (by decide)
  revert kept
  decide

end Marvin.SimpleProxy
