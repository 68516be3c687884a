import Marvin.Data.History
import Marvin.Http.HeaderFields

namespace Marvin.Http.HeaderFields

open Marvin.Data

/-! # Header fields as a map

A `HeaderFields` that is made by the initializer-list constructor and changed by
`set_at_key(key, value)` and `remove_at_key(key)` only.
-/

def ofInitializer (initialValue : List (Bytes × Bytes)) : HeaderFields :=
  initialValue.foldl (fun headers pair => headers.setAtKey (toUpper pair.1) pair.2) empty

/-- The reference to the headers is fixed; the index is what moves. -/
structure Iterator where
  index : Nat
deriving DecidableEq, Repr

/-- `operator=` copies nothing. -/
def Iterator.assign (target _source : Iterator) : Iterator := target

/-- `operator++(int)`: the iterator it leaves, and the value of the expression. -/
def Iterator.postIncrement (iterator : Iterator) : Iterator × Iterator :=
  (⟨iterator.index + 1⟩, ⟨iterator.index + 1⟩)

def begin : Iterator := ⟨0⟩

def finish (headers : HeaderFields) : Iterator := ⟨headers.size⟩

/-- The loop of `find`, with as many rounds as there is fuel. -/
def findLoop (headers : HeaderFields) (keyUpper : HeaderKey) : Nat → Iterator → Option Iterator
  | 0, _ => none
  | fuel + 1, iterator =>
      if iterator = headers.finish then some headers.finish
      else
        match headers.fieldsVector[iterator.index]? with
        | some field =>
            if field.key = keyUpper then some iterator
            else headers.findLoop keyUpper fuel iterator.postIncrement.1
        | none => none

def find (headers : HeaderFields) (key : Bytes) : Option Iterator :=
  let iterator : Iterator := ⟨0⟩
  headers.findLoop (.ofText key) (headers.size + 1) (iterator.assign begin)

theorem findLoop_eq (headers : HeaderFields) (keyUpper : HeaderKey) {fuel index : Nat}
    (inside : index ≤ headers.size) (enough : headers.size < index + fuel) :
    headers.findLoop keyUpper fuel ⟨index⟩ =
      some ⟨index + ((headers.fieldsVector.drop index).findIdx?
        (fun field => field.key = keyUpper)).getD (headers.size - index)⟩ := by
  induction fuel generalizing index with
  | zero => omega
  | succ fuel ih =>
      by_cases last : index = headers.size
      · have empty : headers.fieldsVector.drop index = [] := List.drop_of_length_le (by rw [last]; rfl)
        rw [findLoop, if_pos (by rw [last]; rfl), empty]
        simp [finish, last]
      · have below : index < headers.fieldsVector.length := lt_of_le_of_ne inside last
        have running : (⟨index⟩ : Iterator) ≠ headers.finish := fun same =>
          last (congrArg Iterator.index same)
        rw [findLoop, if_neg running, List.getElem?_eq_getElem below,
          List.drop_eq_getElem_cons below, List.findIdx?_cons]
        dsimp only
        by_cases found : headers.fieldsVector[index].key = keyUpper
        · simp [found]
        · have rest := @ih (index + 1) below (by omega)
          rw [if_neg found, if_neg (by simpa using found)]
          simp only [Iterator.postIncrement]
          rw [rest]
          cases (headers.fieldsVector.drop (index + 1)).findIdx? (fun field => field.key = keyUpper) with
          | none =>
              simp
              omega
          | some later =>
              simp
              omega

theorem find_eq (headers : HeaderFields) (key : Bytes) :
    headers.find key = some ⟨(headers.findAtIndex key).getD headers.size⟩ := by
  rw [find, Iterator.assign, findLoop_eq headers _ (Nat.zero_le _) (by omega)]
  simp [findAtIndex]

theorem findAtIndex_some {headers : HeaderFields} {key : Bytes} {index : Nat}
    (found : headers.findAtIndex key = some index) :
    ∃ value, headers.fieldsVector[index]? = some ⟨.ofText key, value⟩ ∧
      headers.atKey key = some value := by
  obtain ⟨below, same, _⟩ := List.findIdx?_eq_some_iff_getElem.mp found
  have here : headers.fieldsVector[index]? = some headers.fieldsVector[index] :=
    List.getElem?_eq_getElem below
  refine ⟨headers.fieldsVector[index].value, ?_, ?_⟩
  · rw [here, ← of_decide_eq_true same]
  · rw [atKey, found]
    simp [here]

theorem findAtIndex_eq_none (headers : HeaderFields) (key : Bytes) :
    headers.findAtIndex key = none ↔ headers.atKey key = none := by
  constructor
  · intro absent
    rw [atKey, absent]
  · intro absent
    cases found : headers.findAtIndex key with
    | none => rfl
    | some index =>
        obtain ⟨value, _, present⟩ := findAtIndex_some found
        rw [absent] at present
        cases present

inductive Operation where
  | setAtKey (key value : Bytes)
  | removeAtKey (key : Bytes)
deriving DecidableEq, Repr

def Operation.update : Operation → Update HeaderKey Bytes
  | .setAtKey key value => .set (.ofText key) value
  | .removeAtKey key => .remove (.ofText key)

def perform (headers : HeaderFields) : Operation → HeaderFields
  | .setAtKey key value => headers.setAtKey key value
  | .removeAtKey key => headers.removeAtKey key

def historyOf (initialValue : List (Bytes × Bytes)) (operations : List Operation) :
    List (Update HeaderKey Bytes) :=
  (operations.map Operation.update).reverse ++
    (initialValue.map (fun pair => Update.set (HeaderKey.ofText pair.1) pair.2)).reverse

theorem perform_lists {headers : HeaderFields} {history : List (Update HeaderKey Bytes)}
    (lists : KeyedList.Lists history headers.fieldsVector) (operation : Operation) :
    KeyedList.Lists (operation.update :: history) (headers.perform operation).fieldsVector := by
  cases operation with
  | setAtKey key value =>
      rw [perform, setAtKey_eq_put]
      exact lists.put _ value
  | removeAtKey key =>
      rw [perform, removeAtKey_eq_remove]
      exact lists.remove _

theorem performAll_lists {headers : HeaderFields} {history : List (Update HeaderKey Bytes)}
    (lists : KeyedList.Lists history headers.fieldsVector) (operations : List Operation) :
    KeyedList.Lists ((operations.map Operation.update).reverse ++ history)
      (operations.foldl perform headers).fieldsVector := by
  induction operations generalizing headers history with
  | nil => exact lists
  | cons operation rest ih =>
      have after := ih (perform_lists lists operation)
      simpa using after

theorem ofInitializer_eq (initialValue : List (Bytes × Bytes)) :
    ofInitializer initialValue =
      (initialValue.map (fun pair => Operation.setAtKey (toUpper pair.1) pair.2)).foldl
        perform empty := by
  rw [ofInitializer, List.foldl_map]
  rfl

theorem ofInitializer_lists (initialValue : List (Bytes × Bytes)) :
    KeyedList.Lists (historyOf initialValue []) (ofInitializer initialValue).fieldsVector := by
  have folded (text : Bytes) : HeaderKey.ofText (toUpper text) = .ofText text :=
    Subtype.ext (toUpper_idem text)
  have lists := @performAll_lists empty [] .nil
    (initialValue.map (fun pair => Operation.setAtKey (toUpper pair.1) pair.2))
  rw [← ofInitializer_eq] at lists
  simpa [historyOf, Operation.update, Function.comp_def, folded] using lists

/-- After any operations the fields are those of an insertion-ordered map whose
keys are compared without regard to case. -/
theorem fields_refine_ordered_map (initialValue : List (Bytes × Bytes))
    (operations : List Operation) :
    let headers := operations.foldl perform (ofInitializer initialValue)
    let history := historyOf initialValue operations
    (∀ field ∈ headers.fieldsVector, toUpper field.key.val = field.key.val) ∧
    (KeyedList.keys headers.fieldsVector).Nodup ∧
    (KeyedList.keys headers.fieldsVector).Pairwise (Update.Precedes history) ∧
    (∀ key, headers.atKey key = Update.lastValue (.ofText key) history) ∧
    headers.size = Set.ncard { key | Update.lastValue key history ≠ none } ∧
    ∀ key,
      headers.find key = some ⟨(headers.findAtIndex key).getD headers.size⟩ ∧
      (headers.findAtIndex key = none ↔ headers.atKey key = none) ∧
      ∀ index, headers.findAtIndex key = some index →
        ∃ value, headers.fieldsVector[index]? = some ⟨.ofText key, value⟩ ∧
          headers.atKey key = some value := by
  intro headers history
  have lists : KeyedList.Lists history headers.fieldsVector :=
    performAll_lists (ofInitializer_lists initialValue) operations
  refine ⟨fun field _ => field.key.property, lists.distinct, lists.ordered, ?_, lists.length_eq, ?_⟩
  · intro key
    rw [atKey_eq_lookup, lists.values]
  · intro key
    exact ⟨headers.find_eq key, headers.findAtIndex_eq_none key, fun _ => findAtIndex_some⟩

end Marvin.Http.HeaderFields
