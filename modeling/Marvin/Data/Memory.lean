import Mathlib
import Marvin.Data.Bytes

namespace Marvin.Data

/-! Memory of allocated blocks.

A block is named by the pointer to its first byte.  The C standard does not say where
`malloc` and `realloc` place a block nor what its new bytes are, and a block of no
bytes may be the null pointer; an `Allocator` is any such pair of functions, in a
memory that does not run out.
-/

abbrev Memory := Finmap fun _ : Nat => Bytes

namespace Memory

def block (memory : Memory) (pointer : Nat) : Bytes :=
  (memory.lookup pointer).getD []

/-- That many bytes may be used behind the pointer. -/
def HasRoom (memory : Memory) (pointer size : Nat) : Prop :=
  (pointer = 0 ∧ size = 0) ∨ ∃ bytes, memory.lookup pointer = some bytes ∧ size ≤ bytes.length

/-- `memcpy` to an offset into a block.  No result is a write outside of it. -/
def memcpy (memory : Memory) (pointer offset : Nat) (data : Bytes) : Option Memory :=
  if data = [] then some memory
  else
    match memory.lookup pointer with
    | none => none
    | some bytes =>
        if offset + data.length ≤ bytes.length then
          some (memory.insert pointer
            (bytes.take offset ++ data ++ bytes.drop (offset + data.length)))
        else none

/-- The blocks of other pointers are the same afterwards. -/
def Spares (memory : Memory) (pointer : Nat) (after : Memory) : Prop :=
  ∀ other bytes, other ≠ pointer → memory.lookup other = some bytes →
    after.lookup other = some bytes

/-- The memory and the pointer after `realloc` of a block. -/
structure Resized (memory : Memory) (pointer size : Nat) (after : Memory) (moved : Nat) : Prop where
  room : after.HasRoom moved size
  kept : (memory.block pointer).take size <+: after.block moved
  unused : moved ≠ pointer → memory.lookup moved = none
  spared : memory.Spares pointer after

end Memory

structure Allocator where
  realloc : Memory → Nat → Nat → Memory × Nat
  resized (memory : Memory) (pointer size : Nat) : memory.HasRoom pointer 0 →
    memory.Resized pointer size (realloc memory pointer size).1 (realloc memory pointer size).2

namespace Allocator

/-- `malloc` is `realloc` of the null pointer. -/
def malloc (allocator : Allocator) (memory : Memory) (size : Nat) : Memory × Nat :=
  allocator.realloc memory 0 size

end Allocator

namespace Memory

variable {memory after : Memory} {pointer size offset : Nat} {data : Bytes}

@[simp] theorem block_insert (memory : Memory) (pointer : Nat) (bytes : Bytes) :
    block (memory.insert pointer bytes) pointer = bytes := by
  simp [block]

theorem HasRoom.bytes (room : memory.HasRoom pointer size) : size ≤ (memory.block pointer).length := by
  rcases room with ⟨_, rfl⟩ | ⟨bytes, found, enough⟩
  · exact Nat.zero_le _
  · rw [block, found]
    exact enough

theorem HasRoom.mono (room : memory.HasRoom pointer size) {less : Nat} (smaller : less ≤ size) :
    memory.HasRoom pointer less := by
  rcases room with ⟨null, rfl⟩ | ⟨bytes, found, enough⟩
  · exact .inl ⟨null, Nat.le_zero.mp smaller⟩
  · exact .inr ⟨bytes, found, Nat.le_trans smaller enough⟩

theorem Spares.trans {moved : Nat} {last : Memory} (first : memory.Spares pointer after)
    (unused : moved ≠ pointer → memory.lookup moved = none) (second : after.Spares moved last) :
    memory.Spares pointer last := by
  intro other bytes different found
  apply second other bytes
  · intro same
    rw [same] at different found
    cases (unused different).symm.trans found
  · exact first other bytes different found

/-- A copy within the room of a block writes the data behind what is before it, and
leaves the room and the other blocks as they are. -/
theorem memcpy_ok (room : memory.HasRoom pointer size) (inside : offset + data.length ≤ size) :
    ∃ after, memory.memcpy pointer offset data = some after ∧ after.HasRoom pointer size ∧
      (after.block pointer).take (offset + data.length) =
        (memory.block pointer).take offset ++ data ∧
      memory.Spares pointer after := by
  by_cases none : data = []
  · refine ⟨memory, if_pos none, room, ?_, fun _ _ _ same => same⟩
    rw [none, List.length_nil, Nat.add_zero, List.append_nil]
  · rcases room with ⟨_, rfl⟩ | ⟨bytes, found, enough⟩
    · have filled := List.length_pos_iff.mpr none
      omega
    · have fits : offset + data.length ≤ bytes.length := Nat.le_trans inside enough
      have short : offset ≤ bytes.length := by omega
      refine ⟨memory.insert pointer (bytes.take offset ++ data ++ bytes.drop (offset + data.length)),
        ?_, .inr ⟨_, Finmap.lookup_insert memory, ?_⟩, ?_,
        fun other _ different same => (Finmap.lookup_insert_of_ne memory different).trans same⟩
      · simp only [memcpy, if_neg none, found, if_pos fits]
      · simp only [List.length_append, List.length_take, List.length_drop]
        omega
      · rw [block_insert, block, found, Option.getD_some]
        apply List.take_left'
        rw [List.length_append, List.length_take_of_le short]

end Memory

/-! ## An allocator that moves every block -/

/-- A pointer that is not in use. -/
def Memory.free (memory : Memory) : Nat :=
  memory.keys.sup id + 1

theorem Memory.lookup_free (memory : Memory) : memory.lookup memory.free = none := by
  rw [Finmap.lookup_eq_none]
  intro member
  have below : memory.free ≤ memory.keys.sup id := Finset.le_sup (f := id) (Finmap.mem_keys.mpr member)
  rw [Memory.free] at below
  omega

def Allocator.moving : Allocator where
  realloc memory pointer size :=
    ((memory.erase pointer).insert memory.free
      ((memory.block pointer).take size ++ List.replicate (size - (memory.block pointer).length) 0),
      memory.free)
  resized memory pointer size _ := by
    refine ⟨.inr ⟨_, Finmap.lookup_insert _, ?_⟩, ?_, fun _ => memory.lookup_free, ?_⟩
    · simp only [List.length_append, List.length_take, List.length_replicate]
      omega
    · simp only [Memory.block_insert]
      exact List.prefix_append _ _
    · intro other bytes different found
      have apart : other ≠ memory.free := by
        intro same
        rw [same] at found
        cases memory.lookup_free.symm.trans found
      rw [Finmap.lookup_insert_of_ne _ apart, Finmap.lookup_erase_ne different]
      exact found

end Marvin.Data
