import Mathlib.Data.Fintype.EquivFin
import Marvin.Http.HeaderFields

namespace Marvin.Http

open Marvin.Data

/-! # Comparing header fields

The two comparisons of `marvin/http/header_fields.cpp` that the tests use.
`same_values` looks every key of one list up in the other and does not go on to
compare what it finds.
-/

namespace HeaderFields

def sameValues (headers other : HeaderFields) : Bool :=
  headers.size == other.size &&
    headers.fieldsVector.all (fun field => (other.atKey field.key.val).isSome)

def sameOrderAndValues (headers other : HeaderFields) : Bool :=
  headers.size == other.size &&
    (headers.fieldsVector.zip other.fieldsVector).all (fun (field, otherField) =>
      otherField.key == field.key && otherField.value == field.value)

variable {headers other : HeaderFields}

theorem atKey_isSome_iff (headers : HeaderFields) (key : HeaderKey) :
    (headers.atKey key.val).isSome = true ↔ key ∈ KeyedList.keys headers.fieldsVector := by
  rw [atKey_eq_lookup, HeaderKey.ofText_val, Option.isSome_iff_ne_none, ne_eq,
    KeyedList.lookup_eq_none, not_not]

/-- What the comparison does see: the number of fields and the keys of one side. -/
theorem sameValues_iff :
    headers.sameValues other = true ↔
      headers.size = other.size ∧
        KeyedList.keys headers.fieldsVector ⊆ KeyedList.keys other.fieldsVector := by
  simp only [sameValues, Bool.and_eq_true, beq_iff_eq, List.all_eq_true, atKey_isSome_iff]
  refine and_congr_right fun _ => ?_
  constructor
  · intro found key member
    obtain ⟨field, inside, rfl⟩ := List.mem_map.mp member
    exact found field inside
  · intro contained field inside
    exact contained (List.mem_map_of_mem inside)

theorem sameValues_of_perm (same : headers.fieldsVector.Perm other.fieldsVector) :
    headers.sameValues other = true := by
  rw [sameValues_iff]
  exact ⟨same.length_eq, (same.map Entry.key).subset⟩

theorem sameOrderAndValues_iff : headers.sameOrderAndValues other = true ↔ headers = other := by
  obtain ⟨fields⟩ := headers
  obtain ⟨others⟩ := other
  simp only [sameOrderAndValues, size, Bool.and_eq_true, beq_iff_eq, HeaderFields.mk.injEq]
  induction fields generalizing others with
  | nil =>
      cases others with
      | nil => simp
      | cons field rest => simp
  | cons field rest ih =>
      cases others with
      | nil => simp
      | cons otherField others =>
          have equal : otherField.key = field.key ∧ otherField.value = field.value ↔
              field = otherField := by
            obtain ⟨key, value⟩ := field
            obtain ⟨otherKey, otherValue⟩ := otherField
            simp [eq_comm]
          simp only [List.length_cons, Nat.add_right_cancel_iff, List.zip_cons_cons, List.all_cons,
            Bool.and_eq_true, beq_iff_eq, equal, List.cons.injEq, ← ih]
          exact and_left_comm

theorem sameValues_of_sameOrderAndValues (same : headers.sameOrderAndValues other = true) :
    headers.sameValues other = true := by
  rw [sameOrderAndValues_iff.mp same]
  exact sameValues_of_perm (.refl _)

end HeaderFields

end Marvin.Http
