import Mathlib.Logic.Function.Basic

namespace Marvin.Data

/-! Heaps of cells that are shared by address.

Addresses below `next` are in use.  A new cell gets the address `next`, so it
differs from every address that is in use.  Objects that are not shared stand in
a list.
-/

structure Heap (β : Type u) where
  cell : Nat → β
  next : Nat

namespace Heap

variable {β : Type u}

def make (heap : Heap β) (value : β) : Heap β :=
  ⟨Function.update heap.cell heap.next value, heap.next + 1⟩

def write (heap : Heap β) (address : Nat) (value : β) : Heap β :=
  { heap with cell := Function.update heap.cell address value }

@[simp] theorem make_cell_next (heap : Heap β) (value : β) :
    (heap.make value).cell heap.next = value := by
  simp [make]

theorem make_cell_of_lt {heap : Heap β} {address : Nat} (used : address < heap.next) (value : β) :
    (heap.make value).cell address = heap.cell address := by
  simp [make, Nat.ne_of_lt used]

@[simp] theorem make_next (heap : Heap β) (value : β) : (heap.make value).next = heap.next + 1 := rfl

@[simp] theorem write_cell_self (heap : Heap β) (address : Nat) (value : β) :
    (heap.write address value).cell address = value := by
  simp [write]

theorem write_cell_ne (heap : Heap β) {address other : Nat} (different : other ≠ address)
    (value : β) : (heap.write address value).cell other = heap.cell other := by
  simp [write, different]

@[simp] theorem write_next (heap : Heap β) (address : Nat) (value : β) :
    (heap.write address value).next = heap.next := rfl

/-- The cells in use are the same in both heaps. -/
structure Extends (heap after : Heap β) : Prop where
  next : heap.next ≤ after.next
  cell {address : Nat} : address < heap.next → after.cell address = heap.cell address

theorem Extends.refl (heap : Heap β) : Extends heap heap :=
  ⟨Nat.le_refl _, fun _ => rfl⟩

theorem Extends.trans {first second third : Heap β} (left : Extends first second)
    (right : Extends second third) : Extends first third :=
  ⟨Nat.le_trans left.next right.next, fun used => by
    rw [right.cell (Nat.lt_of_lt_of_le used left.next), left.cell used]⟩

theorem extends_make (heap : Heap β) (value : β) : Extends heap (heap.make value) :=
  ⟨Nat.le_succ _, fun used => make_cell_of_lt used value⟩

end Heap

/-! ## Objects in a list, named by their positions -/

variable {β : Type u} {objects : List β}

theorem getElem?_set_found {slot : Nat} {object : β} (found : objects[slot]? = some object)
    (next : β) : (objects.set slot next)[slot]? = some next := by
  rw [List.getElem?_set_self', found]
  rfl

theorem forall_mem_set {holds : β → Prop} (held : ∀ object ∈ objects, holds object) (slot : Nat)
    {next : β} (valid : holds next) : ∀ object ∈ objects.set slot next, holds object := by
  intro object member
  rcases List.mem_or_eq_of_mem_set member with old | same
  · exact held object old
  · rw [same]
    exact valid

theorem forall_mem_push {holds : β → Prop} (held : ∀ object ∈ objects, holds object)
    {next : β} (valid : holds next) : ∀ object ∈ objects ++ [next], holds object := by
  rw [List.forall_mem_append]
  exact ⟨held, List.forall_mem_singleton.mpr valid⟩

/-- Two removals leave the same list when all objects from the one position to the
other are equal, which positions beyond the end always are. -/
theorem eraseIdx_eq_iff {left right : Nat} :
    objects.eraseIdx left = objects.eraseIdx right ↔
      ∀ position, min left right ≤ position → position < max left right →
        objects[position]? = objects[position + 1]? := by
  rw [List.ext_getElem?_iff]
  simp only [List.getElem?_eraseIdx]
  constructor
  · intro same position above below
    have here := same position
    by_cases early : position < left
    · rw [if_pos early, if_neg (by omega)] at here
      exact here
    · rw [if_neg early, if_pos (by omega)] at here
      exact here.symm
  · intro equal position
    by_cases early : position < left
    · by_cases late : position < right
      · rw [if_pos early, if_pos late]
      · rw [if_pos early, if_neg late]
        exact equal position (by omega) (by omega)
    · by_cases late : position < right
      · rw [if_neg early, if_pos late]
        exact (equal position (by omega) (by omega)).symm
      · rw [if_neg early, if_neg late]

end Marvin.Data
