import Marvin.Buffer.BufferHeap

namespace Marvin.Buffer

open Marvin.Data

/-! # Moving a buffer

The move constructor and the move assignment of `marvin/buffer/contig_buffer.hpp`
end with `other = ContigBuffer(m_strategy, m_capacity)`, which is a move assignment
again.
-/

namespace Machine

variable (allocator : Allocator)

/-- Move assignment, from the object at `there` to the one at `here`.  A new buffer
is assigned to the source, by this operator, as a temporary is moved from.  No
result: the calls are nested deeper than the fuel. -/
def moveAssign : Nat → Memory → Nat → BufferObject → Nat → BufferObject →
    Option (Except Fault (Memory × BufferObject × BufferObject))
  | 0, _, _, _, _, _ => none
  | fuel + 1, memory, here, object, there, other =>
      if there = here then some (.ok (memory, object, other))
      else
        let object := { object with
          memPtr := other.memPtr, cPtr := other.cPtr, mCapacity := other.mCapacity
          mSize := other.mSize }
        match ofCapacity allocator object.strategy object.mCapacity memory with
        | .error fault => some (.error fault)
        | .ok temporary => do
            match ← moveAssign fuel temporary.memory there other (max here there + 1)
              temporary.object with
            | .error fault => return .error fault
            | .ok (memory, other, temporary) =>
                return .ok (← destroy ⟨memory, temporary⟩, object, other)

/-- The move constructor, which leaves `m_length` unset as well. -/
def moveConstruct (fuel : Nat) (memory : Memory) (there : Nat) (other : BufferObject)
    (garbage : Nat) : Option (Except Fault (Memory × BufferObject × BufferObject)) :=
  let object : BufferObject :=
    ⟨other.strategy, other.memPtr, other.memPtr, garbage, other.mCapacity, other.mSize⟩
  match ofCapacity allocator object.strategy object.mCapacity memory with
  | .error fault => some (.error fault)
  | .ok temporary => do
      match ← moveAssign allocator fuel temporary.memory there other (there + 1)
        temporary.object with
      | .error fault => return .error fault
      | .ok (memory, other, temporary) =>
          return .ok (← destroy ⟨memory, temporary⟩, object, other)

/-- Both strategies allow a buffer of the capacity and of the least size of either. -/
def Movable (first second : BufferMallocator) (capacity : Nat) : Prop :=
  max capacity (max first.minSize second.minSize) ≤ min first.maxSize second.maxSize

variable {allocator}

theorem ofCapacity_cases (strategy : BufferMallocator) (capacity : Nat) (memory : Memory) :
    (strategy.maxSize < max capacity strategy.minSize ∧
        ofCapacity allocator strategy capacity memory = .error .requestedAllocationTooBig) ∨
      ∃ machine, max capacity strategy.minSize ≤ strategy.maxSize ∧
        ofCapacity allocator strategy capacity memory = .ok machine ∧
        machine.object.strategy = strategy ∧
        machine.object.mCapacity = max capacity strategy.minSize := by
  by_cases big : max capacity strategy.minSize > strategy.maxSize
  · refine .inl ⟨big, ?_⟩
    simp only [ofCapacity, BufferMallocator.allocate, if_pos big]
    rfl
  · refine .inr ?_
    simp only [ofCapacity, BufferMallocator.allocate, if_neg big]
    exact ⟨_, Nat.le_of_not_lt big, rfl, rfl, rfl⟩

theorem moveAssign_self (fuel : Nat) (memory : Memory) (here : Nat) (object other : BufferObject) :
    moveAssign allocator (fuel + 1) memory here object here other =
      some (.ok (memory, object, other)) := by
  rw [moveAssign, if_pos rfl]

theorem temporary_elsewhere (here there : Nat) : max here there + 1 ≠ there := by omega

theorem moveAssign_not_ok {here there : Nat} (elsewhere : there ≠ here) (fuel : Nat)
    (memory : Memory) (object other : BufferObject)
    (result : Memory × BufferObject × BufferObject) :
    moveAssign allocator fuel memory here object there other ≠ some (.ok result) := by
  induction fuel generalizing memory here object there other result with
  | zero => exact Option.some_ne_none _ |>.symm
  | succ fuel ih =>
      intro returned
      simp only [moveAssign, if_neg elsewhere] at returned
      split at returned
      · cases returned
      · next temporary made =>
          obtain ⟨moved, nested, rest⟩ := Option.bind_eq_some_iff.mp returned
          cases moved with
          | error fault => cases rest
          | ok inner =>
              exact ih (temporary_elsewhere here there) temporary.memory other temporary.object
                inner nested

theorem moveAssign_endless {here there : Nat} (elsewhere : there ≠ here)
    {object other : BufferObject}
    (movable : Movable object.strategy other.strategy other.mCapacity) (fuel : Nat)
    (memory : Memory) : moveAssign allocator fuel memory here object there other = none := by
  induction fuel generalizing memory here object there other with
  | zero => rfl
  | succ fuel ih =>
      unfold Movable at movable
      rcases @ofCapacity_cases allocator object.strategy other.mCapacity memory with
        ⟨big, _⟩ | ⟨temporary, _, made, strategy, capacity⟩
      · omega
      · have nested : Movable other.strategy temporary.object.strategy temporary.object.mCapacity := by
          rw [Movable, strategy, capacity]
          omega
        have deeper := ih (temporary_elsewhere here there) nested temporary.memory
        simp only [moveAssign, if_neg elsewhere, made, deeper, bind, Option.bind]

/-- Where a buffer is not allowed, the third call throws if none before it does. -/
theorem moveAssign_throws {here there : Nat} (elsewhere : there ≠ here)
    {object other : BufferObject}
    (immovable : ¬ Movable object.strategy other.strategy other.mCapacity) (memory : Memory) :
    moveAssign allocator 3 memory here object there other =
      some (.error .requestedAllocationTooBig) := by
  unfold Movable at immovable
  have second := temporary_elsewhere here there
  have third := temporary_elsewhere there (max here there + 1)
  rcases @ofCapacity_cases allocator object.strategy other.mCapacity memory with
    ⟨_, refused⟩ | ⟨first, _, made, strategy, capacity⟩
  · simp only [moveAssign, if_neg elsewhere, refused]
  · rcases @ofCapacity_cases allocator other.strategy first.object.mCapacity first.memory with
      ⟨_, refused⟩ | ⟨temporary, _, again, _, more⟩
    · simp only [moveAssign, if_neg elsewhere, if_neg second, made, refused, bind, Option.bind]
      rfl
    · rcases @ofCapacity_cases allocator first.object.strategy temporary.object.mCapacity
        temporary.memory with ⟨_, refused⟩ | ⟨_, room, _⟩
      · simp only [moveAssign, if_neg elsewhere, if_neg second, if_neg third, made, again, refused,
          bind, Option.bind]
        rfl
      · rw [capacity] at more
        rw [strategy, more] at room
        omega

theorem moveConstruct_not_ok (fuel : Nat) (memory : Memory) (there : Nat) (other : BufferObject)
    (garbage : Nat) (result : Memory × BufferObject × BufferObject) :
    moveConstruct allocator fuel memory there other garbage ≠ some (.ok result) := by
  intro returned
  simp only [moveConstruct] at returned
  split at returned
  · cases returned
  · next temporary made =>
      obtain ⟨moved, nested, rest⟩ := Option.bind_eq_some_iff.mp returned
      cases moved with
      | error fault => cases rest
      | ok inner =>
          exact moveAssign_not_ok (Nat.succ_ne_self there) fuel temporary.memory other
            temporary.object inner nested

theorem moveConstruct_endless_iff (memory : Memory) (there : Nat) (other : BufferObject)
    (garbage : Nat) :
    (∀ fuel, moveConstruct allocator fuel memory there other garbage = none) ↔
      max other.mCapacity other.strategy.minSize ≤ other.strategy.maxSize := by
  rcases @ofCapacity_cases allocator other.strategy other.mCapacity memory with
    ⟨big, refused⟩ | ⟨temporary, room, made, strategy, capacity⟩
  · refine iff_of_false (fun endless => ?_) (Nat.not_le.mpr big)
    have thrown := endless 0
    simp only [moveConstruct, refused] at thrown
    cases thrown
  · refine iff_of_true (fun fuel => ?_) room
    have nested : Movable other.strategy temporary.object.strategy temporary.object.mCapacity := by
      rw [Movable, strategy, capacity]
      omega
    simp only [moveConstruct, made, moveAssign_endless (Nat.succ_ne_self there) nested, bind,
      Option.bind]

/-- A move assignment returns only to the object it moves from, and a move
construction never.  They throw where a strategy does not allow a buffer that is
asked for on the way; elsewhere the nested calls go on without end, each with a new
slab. -/
theorem moves_never_return (allocator : Allocator) (memory : Memory) (here there : Nat)
    (object other : BufferObject) (garbage : Nat) :
    ((∃ fuel result, moveAssign allocator fuel memory here object there other =
        some (.ok result)) ↔ there = here) ∧
      (∀ fuel result, moveConstruct allocator fuel memory there other garbage ≠
        some (.ok result)) ∧
      ((∀ fuel, moveAssign allocator fuel memory here object there other = none) ↔
        there ≠ here ∧ Movable object.strategy other.strategy other.mCapacity) ∧
      ((∀ fuel, moveConstruct allocator fuel memory there other garbage = none) ↔
        max other.mCapacity other.strategy.minSize ≤ other.strategy.maxSize) := by
  refine ⟨⟨?_, ?_⟩, fun fuel => moveConstruct_not_ok fuel memory there other garbage, ⟨?_, ?_⟩,
    moveConstruct_endless_iff memory there other garbage⟩
  · intro returned
    obtain ⟨fuel, result, returned⟩ := returned
    by_contra elsewhere
    exact moveAssign_not_ok elsewhere fuel memory object other result returned
  · intro same
    subst same
    exact ⟨1, _, moveAssign_self 0 memory there object other⟩
  · intro endless
    have elsewhere : there ≠ here := by
      intro same
      subst same
      cases (endless 1).symm.trans (moveAssign_self 0 memory there object other)
    refine ⟨elsewhere, ?_⟩
    by_contra immovable
    cases (endless 3).symm.trans (moveAssign_throws elsewhere immovable memory)
  · intro given fuel
    obtain ⟨elsewhere, movable⟩ := given
    exact moveAssign_endless elsewhere movable fuel memory

end Machine

end Marvin.Buffer
