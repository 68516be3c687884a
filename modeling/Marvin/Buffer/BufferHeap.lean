import Marvin.Buffer.BufferMemory
import Marvin.Buffer.BufferRuns
import Marvin.Data.Ledger

namespace Marvin.Buffer

open Marvin.Data

/-! # The memory of all buffers

The constructors, the members and the destructor of
`marvin/buffer/contig_buffer.hpp` on any number of objects in one memory.  A read
or a write outside of a block and a `free` of what is no block have no result.  The
stores of `BufferRuns` are what these objects show.
-/

namespace Machine

variable (allocator : Allocator)

/-- The object after `append`, and what it throws. -/
def appendTo (machine : Machine) (data : Bytes) : Option (Machine × Option Fault) :=
  match append allocator data machine with
  | .ok _ after => some (after, none)
  | .error (.thrown fault) after => some (after, some fault)
  | .error .overrun _ => none

def clear (machine : Machine) : Option Machine := do
  let memory ← machine.memory.memcpy machine.object.cPtr 0 [0]
  return ⟨memory, { machine.object with mLength := 0 }⟩

def setSize (machine : Machine) (count : Nat) : Machine :=
  { machine with object := { machine.object with mLength := count, mSize := count } }

/-- A socket read to `data()`. -/
def receive (machine : Machine) (data : Bytes) : Option Machine := do
  let memory ← machine.memory.memcpy machine.object.memPtr 0 data
  return { machine with memory }

/-- The memory that `allocate` returns is filled from another buffer. -/
def duplicate (strategy : BufferMallocator) (other : BufferObject) (memory : Memory) :
    Option (Memory × Nat) := do
  let (memory, pointer) := allocator.malloc memory (max other.mCapacity strategy.minSize)
  let source ← memory.read other.memPtr other.mSize
  let memory ← memory.memcpy pointer 0 source
  return (memory, pointer)

/-- The copy constructor leaves `m_length` as the memory of the object has it. -/
def copyConstruct (other : BufferObject) (garbage : Nat) (memory : Memory) :
    Option (Except Fault Machine) :=
  match other.strategy.allocate other.mCapacity with
  | .error fault => some (.error fault)
  | .ok () => do
      let (memory, pointer) ← duplicate allocator other.strategy other memory
      return .ok ⟨memory, ⟨other.strategy, pointer, pointer, garbage, other.mCapacity, other.mSize⟩⟩

def copyAssign (machine : Machine) (other : BufferObject) : Option (Machine × Option Fault) :=
  let object := { machine.object with mCapacity := other.mCapacity }
  match object.strategy.allocate other.mCapacity with
  | .error fault => some ({ machine with object }, some fault)
  | .ok () => do
      let (memory, pointer) ← duplicate allocator object.strategy other machine.memory
      return (⟨memory, { object with memPtr := pointer, cPtr := pointer, mSize := other.mSize }⟩, none)

/-- The destructor. -/
def destroy (machine : Machine) : Option Memory :=
  if machine.object.memPtr ≠ 0 ∧ 0 < machine.object.mCapacity then
    machine.memory.release machine.object.memPtr
  else some machine.memory

/-- The constructor from a string delegates to the one with a capacity, so an
exception of `append` destroys the object. -/
def ofString (strategy : BufferMallocator) (text : Bytes) (memory : Memory) :
    Option (Memory × Except Fault BufferObject) :=
  match ofCapacity allocator strategy text.length memory with
  | .error fault => some (memory, .error fault)
  | .ok machine => do
      match ← machine.appendTo allocator text with
      | (filled, none) => return (filled.memory, .ok filled.object)
      | (partly, some fault) => return (← partly.destroy, .error fault)

end Machine

structure BufferHeap where
  memory : Memory
  /-- In the order in which they were made; the destroyed ones are gone. -/
  objects : List (Option BufferObject)
  /-- The slabs that no object has any more. -/
  leaked : List Nat
deriving DecidableEq

inductive HeapOperation where
  | perform (operation : BufferOperation)
  | receive (slot : Nat) (data : Bytes)
  | destroy (slot : Nat)
deriving DecidableEq, Repr

namespace BufferHeap

variable (allocator : Allocator)

def object? (heap : BufferHeap) (slot : Nat) : Option BufferObject :=
  heap.objects[slot]?.join

def make (heap : BufferHeap) (memory : Memory) :
    Except Fault BufferObject → BufferHeap × Option Fault
  | .ok object => ({ heap with memory, objects := heap.objects ++ [some object] }, none)
  | .error fault => ({ heap with memory }, some fault)

def alter (heap : BufferHeap) (slot : Nat) (change : Machine → Option (Machine × Option Fault)) :
    Option (BufferHeap × Option Fault) := do
  let object ← heap.object? slot
  let (machine, thrown) ← change ⟨heap.memory, object⟩
  return ({ heap with
    memory := machine.memory, objects := heap.objects.set slot (some machine.object) }, thrown)

def performOn (heap : BufferHeap) : BufferOperation → Option (BufferHeap × Option Fault)
  | .ofCapacity strategy capacity =>
      match Machine.ofCapacity allocator strategy capacity heap.memory with
      | .ok machine => some (heap.make machine.memory (.ok machine.object))
      | .error fault => some (heap.make heap.memory (.error fault))
  | .ofString strategy text => do
      let (memory, result) ← Machine.ofString allocator strategy text heap.memory
      return heap.make memory result
  | .copyConstruct source garbage => do
      let other ← heap.object? source
      match ← Machine.copyConstruct allocator other garbage heap.memory with
      | .ok machine => return heap.make machine.memory (.ok machine.object)
      | .error fault => return heap.make heap.memory (.error fault)
  | .copyAssign target source => do
      let object ← heap.object? target
      let other ← heap.object? source
      if target = source then return (heap, none)
      else
        let (after, thrown) ← heap.alter target fun machine => machine.copyAssign allocator other
        return (if thrown = none then { after with leaked := object.memPtr :: after.leaked } else after,
          thrown)
  | .append slot data => heap.alter slot fun machine => machine.appendTo allocator data
  | .clear slot => heap.alter slot fun machine => machine.clear.map (·, none)
  | .setSize slot count => heap.alter slot fun machine => some (machine.setSize count, none)

def step (heap : BufferHeap) : HeapOperation → Option (BufferHeap × Option Fault)
  | .perform operation => heap.performOn allocator operation
  | .receive slot data => heap.alter slot fun machine => (machine.receive data).map (·, none)
  | .destroy slot => do
      let object ← heap.object? slot
      let memory ← Machine.destroy ⟨heap.memory, object⟩
      return ({ heap with memory, objects := heap.objects.set slot none }, none)

/-- The slabs of the objects that exist. -/
def slabs (heap : BufferHeap) : List Nat :=
  heap.objects.reduceOption.map BufferObject.memPtr

/-- What the operation does to what the objects show. -/
def shown (store : BufferStore) : HeapOperation → Option (BufferStore × Option Fault)
  | .perform operation => store.perform operation
  | .receive slot data =>
      store[slot]?.bind fun buffer =>
        if data.length ≤ buffer.capacity then some (store.set slot (buffer.receive data), none)
        else none
  | .destroy _ => some (store, none)

/-- The objects that an operation uses exist. -/
def Names (heap : BufferHeap) : HeapOperation → Prop
  | .perform (.ofCapacity _ _) | .perform (.ofString _ _) => True
  | .perform (.copyConstruct source _) => (heap.object? source).isSome
  | .perform (.copyAssign target source) =>
      (heap.object? target).isSome ∧ (heap.object? source).isSome
  | .perform (.append slot _) | .perform (.clear slot) | .perform (.setSize slot _)
  | .receive slot _ | .destroy slot => (heap.object? slot).isSome

/-- The strategies have room for something, no copy is assigned that the strategy of
its target does not allow, and bytes are copied or appended to only where something
was written. -/
def Minds (store : BufferStore) : HeapOperation → Prop
  | .perform (.ofCapacity strategy _) => 0 < strategy.minSize ∧ strategy.maxSize < 2 ^ 62
  | .perform (.ofString strategy text) =>
      0 < strategy.minSize ∧ strategy.maxSize < 2 ^ 62 ∧ text.length < 2 ^ 62
  | .perform (.copyConstruct source _) =>
      ∀ other ∈ store[source]?, other.mSize ≤ other.memory.length
  | .perform (.copyAssign target source) =>
      target = source ∨ ∀ buffer ∈ store[target]?, ∀ other ∈ store[source]?,
        other.mCapacity ≤ buffer.strategy.maxSize ∧ other.mSize ≤ other.memory.length
  | .perform (.append slot data) =>
      data.length < 2 ^ 62 ∧ ∀ buffer ∈ store[slot]?, buffer.mLength ≤ buffer.memory.length
  | .perform (.clear _) | .perform (.setSize _ _) | .receive _ _ | .destroy _ => True

end BufferHeap

/-! ## One object -/

namespace ContigBuffer

/-- The members of a buffer whose slab is at the pointer. -/
def objectAt (buffer : ContigBuffer) (pointer : Nat) : BufferObject :=
  ⟨buffer.strategy, pointer, pointer, buffer.mLength, buffer.mCapacity, buffer.mSize⟩

/-- What the operations keep of a buffer. -/
structure Fits (buffer : ContigBuffer) : Prop where
  least : 0 < buffer.strategy.minSize
  limit : buffer.strategy.maxSize < 2 ^ 62
  roomy : 0 < buffer.mCapacity
  bounded : buffer.mCapacity ≤ buffer.strategy.maxSize
  written : buffer.memory.length ≤ buffer.mCapacity
  sized : buffer.mSize ≤ buffer.mCapacity

/-- The block at the pointer has room for the buffer and begins with its bytes. -/
def Slab (memory : Memory) (pointer : Nat) (buffer : ContigBuffer) : Prop :=
  ∃ bytes, memory.lookup pointer = some bytes ∧ buffer.mCapacity ≤ bytes.length ∧
    buffer.memory <+: bytes

end ContigBuffer

namespace Machine

open ContigBuffer

/-- A buffer in a memory where the other owned pointers are the given ones. -/
structure Holds (machine : Machine) (buffer : ContigBuffer) (rest : List Nat) : Prop where
  object : machine.object = buffer.objectAt machine.object.memPtr
  fits : buffer.Fits
  slab : Slab machine.memory machine.object.memPtr buffer
  ledger : machine.memory.Ledger (machine.object.memPtr :: rest)

/-- The blocks of the given pointers are as they were. -/
def Keeps (before after : Memory) (rest : List Nat) : Prop :=
  ∀ pointer ∈ rest, after.lookup pointer = before.lookup pointer

variable {allocator : Allocator} {machine : Machine} {buffer : ContigBuffer} {rest : List Nat}
  {data : Bytes}

theorem Holds.memPtr_not_mem (holds : machine.Holds buffer rest) : machine.object.memPtr ∉ rest :=
  (List.nodup_cons.mp holds.ledger.distinct).1

theorem Keeps.of_others {before after : Memory} {pointer : Nat} (absent : pointer ∉ rest)
    (others : ∀ other, other ≠ pointer → after.lookup other = before.lookup other) :
    Keeps before after rest :=
  fun other member => others other fun same => absent (same ▸ member)

theorem Keeps.trans {first second third : Memory} (before : Keeps first second rest)
    (after : Keeps second third rest) : Keeps first third rest :=
  fun pointer member => (after pointer member).trans (before pointer member)

/-- A write within the capacity. -/
theorem Holds.write (holds : machine.Holds buffer rest) {offset : Nat}
    (inside : offset + data.length ≤ buffer.mCapacity) (defined : offset ≤ buffer.memory.length) :
    ∃ after, machine.memory.memcpy machine.object.memPtr offset data = some after ∧
      Slab after machine.object.memPtr { buffer with memory := writeAt buffer.memory offset data } ∧
      (writeAt buffer.memory offset data).length ≤ buffer.mCapacity ∧
      after.Ledger (machine.object.memPtr :: rest) ∧ Keeps machine.memory after rest := by
  obtain ⟨bytes, found, room, begins⟩ := holds.slab
  obtain ⟨after, copied, written, others⟩ :=
    Memory.memcpy_of_lookup found (inside.trans room)
  have front : peek buffer.memory offset = bytes.take offset := by
    obtain ⟨tail, rfl⟩ := begins
    rw [peek, Nat.sub_eq_zero_of_le defined, List.replicate_zero, List.append_nil,
      List.take_append_of_le_length defined]
  have length : (writeAt buffer.memory offset data).length ≤ buffer.mCapacity := by
    have limit := holds.fits.written
    simp only [writeAt, List.length_append, peek_length, List.length_drop]
    omega
  refine ⟨after, copied, ⟨_, written, ?_, ?_⟩, length, holds.ledger.memcpy found written others,
    .of_others holds.memPtr_not_mem others⟩
  · simp only [List.length_append, List.length_take, List.length_drop]
    omega
  · rw [writeAt, front]
    exact (List.prefix_append_right_inj _).mpr (begins.drop _)

section Fields

variable (holds : machine.Holds buffer rest)

include holds

theorem Holds.strategy : machine.object.strategy = buffer.strategy :=
  congrArg BufferObject.strategy holds.object

theorem Holds.cPtr : machine.object.cPtr = machine.object.memPtr :=
  congrArg BufferObject.cPtr holds.object

theorem Holds.mLength : machine.object.mLength = buffer.mLength :=
  congrArg BufferObject.mLength holds.object

theorem Holds.mCapacity : machine.object.mCapacity = buffer.mCapacity :=
  congrArg BufferObject.mCapacity holds.object

theorem Holds.mSize : machine.object.mSize = buffer.mSize :=
  congrArg BufferObject.mSize holds.object

end Fields

/-- The slab is large enough for the data, and has moved with its bytes if need be. -/
theorem Holds.expand (holds : machine.Holds buffer rest) (exact : allocator.Exact)
    (within : buffer.mLength + data.length ≤ buffer.strategy.maxSize) :
    ∃ next, expand allocator data machine = .ok () next ∧
      next.Holds { buffer with mCapacity := buffer.grownCapacity data } rest ∧
      Keeps machine.memory next.memory rest := by
  have fits := holds.fits
  have grown := grownCapacity_bounds fits.bounded within
  have limit := fits.limit
  have summed : sizeT (machine.object.mLength + data.length) = buffer.mLength + data.length := by
    rw [holds.mLength]
    exact sizeT_of_lt (by omega)
  have better : Fits { buffer with mCapacity := buffer.grownCapacity data } :=
    ⟨fits.least, fits.limit, Nat.lt_of_lt_of_le fits.roomy grown.2.2, grown.2.1,
      fits.written.trans grown.2.2, fits.sized.trans grown.2.2⟩
  by_cases big : buffer.mCapacity ≤ buffer.mLength + data.length
  · have doubled : sizeT (2 * machine.object.mCapacity) = 2 * buffer.mCapacity := by
      have bounded := fits.bounded
      rw [holds.mCapacity]
      exact sizeT_of_lt (by omega)
    have capacity : max (buffer.mLength + data.length) (min machine.object.strategy.maxSize
        (sizeT (2 * machine.object.mCapacity))) = buffer.grownCapacity data := by
      rw [doubled, holds.strategy]
      exact (if_pos big).symm
    obtain ⟨bytes, found, room, begins⟩ := holds.slab
    have resized := allocator.resized machine.memory machine.object.memPtr (buffer.grownCapacity data)
      (.inr ⟨bytes, found, Nat.zero_le _⟩)
    have ledger := holds.ledger.realloc exact (Nat.lt_of_lt_of_le fits.roomy grown.2.2)
    refine ⟨_, expand_grown summed (by rw [holds.mCapacity]; exact big)
      (by rw [holds.strategy]; exact within) capacity, ⟨?_, better, ?_, ledger⟩, ?_⟩
    · simp only [objectAt, holds.strategy, holds.mLength, holds.mSize]
    · rcases resized.room with ⟨_, none⟩ | ⟨moved, there, enough⟩
      · exact absurd none (Nat.ne_of_gt better.roomy)
      · refine ⟨moved, there, enough, ?_⟩
        have kept := resized.kept
        rw [Memory.block, Memory.block, found, there] at kept
        exact (List.prefix_take_iff.mpr ⟨begins, fits.written.trans grown.2.2⟩).trans kept
    · intro pointer member
      refine exact.others (.inr ⟨bytes, found, Nat.zero_le _⟩) ?_ ?_
      · intro same
        exact holds.memPtr_not_mem (same ▸ member)
      · intro same
        exact (List.nodup_cons.mp ledger.distinct).1 (same ▸ member)
  · have capacity : buffer.grownCapacity data = buffer.mCapacity := if_neg big
    refine ⟨machine, expand_roomy summed (by rw [holds.mCapacity]; exact Nat.lt_of_not_le big), ?_,
      fun _ _ => rfl⟩
    rw [capacity]
    exact holds

theorem Holds.store (holds : machine.Holds buffer rest)
    (defined : buffer.mLength ≤ buffer.memory.length)
    (inside : buffer.mLength + data.length ≤ buffer.mCapacity) :
    ∃ next, store data machine = .ok () next ∧
      next.Holds { buffer with
        memory := writeAt buffer.memory buffer.mLength data
        mLength := buffer.mLength + data.length
        mSize := buffer.mLength + data.length } rest ∧
      Keeps machine.memory next.memory rest := by
  have fits := holds.fits
  obtain ⟨memory, copied, slab, length, ledger, kept⟩ := holds.write inside defined
  have small : sizeT (machine.object.mLength + data.length) = buffer.mLength + data.length := by
    have limit := fits.limit
    have bounded := fits.bounded
    rw [holds.mLength]
    exact sizeT_of_lt (by omega)
  refine ⟨⟨memory, { machine.object with
    mLength := buffer.mLength + data.length
    mSize := buffer.mLength + data.length
    cPtr := machine.object.memPtr }⟩, ?_, ⟨?_, ?_, slab, ledger⟩, kept⟩
  · rw [← holds.mLength, ← holds.cPtr] at copied
    simp only [Machine.store, bind, EStateM.bind, get, getThe, MonadStateOf.get, EStateM.get, memcpy,
      copied, set, MonadStateOf.set, EStateM.set, assign, modify, modifyGet, MonadStateOf.modifyGet,
      EStateM.modifyGet, small]
  · simp only [objectAt, holds.strategy, holds.mCapacity]
  · exact ⟨fits.least, fits.limit, fits.roomy, fits.bounded, length, inside⟩

theorem Holds.appendTo (holds : machine.Holds buffer rest) (exact : allocator.Exact)
    (short : data.length < 2 ^ 62) (defined : buffer.mLength ≤ buffer.memory.length) :
    (∃ fault, buffer.append data = .error fault ∧
        machine.appendTo allocator data = some (machine, some fault)) ∨
      ∃ next, buffer.append data = .ok (buffer.appended data) ∧
        machine.appendTo allocator data = some (next, none) ∧
        next.Holds (buffer.appended data) rest ∧ Keeps machine.memory next.memory rest := by
  have fits := holds.fits
  by_cases within : buffer.mLength + data.length ≤ buffer.strategy.maxSize
  · obtain ⟨middle, expanded, roomy, before⟩ := @Holds.expand allocator _ _ _ data holds exact within
    obtain ⟨next, stored, done, after⟩ := @Holds.store _ _ _ data roomy defined
      (length_le_grownCapacity buffer data)
    refine .inr ⟨next, append_exists within, ?_, done, before.trans after⟩
    have whole : append allocator data machine = .ok () next := by
      simp only [append, bind, EStateM.bind, expanded]
      exact stored
    rw [Machine.appendTo, whole]
  · have beyond := Nat.lt_of_not_le within
    have limit := fits.limit
    have bounded := fits.bounded
    have written := fits.written
    have overgrows : buffer.Overgrows data := ⟨by omega, beyond⟩
    have refused : append allocator data machine =
        .error (.thrown .requestedAllocationTooBig) machine := by
      refine append_error ?_ ?_ ?_ short ?_
      · rw [holds.mLength, holds.mCapacity]
        omega
      · rw [holds.mCapacity, holds.strategy]
        exact bounded
      · rw [holds.strategy]
        exact limit
      · rw [holds.mLength, holds.strategy]
        exact beyond
    refine .inl ⟨.requestedAllocationTooBig, ?_, ?_⟩
    · rw [ContigBuffer.append_eq, if_pos overgrows]
    · rw [Machine.appendTo, refused]

theorem Holds.receive (holds : machine.Holds buffer rest) (inside : data.length ≤ buffer.mCapacity) :
    ∃ next, machine.receive data = some next ∧ next.Holds (buffer.receive data) rest ∧
      Keeps machine.memory next.memory rest := by
  have fits := holds.fits
  obtain ⟨memory, copied, slab, length, ledger, kept⟩ :=
    @Holds.write _ _ _ data holds 0 (by rw [Nat.zero_add]; exact inside) (Nat.zero_le _)
  refine ⟨{ machine with memory }, by rw [Machine.receive, copied]; rfl,
    ⟨holds.object, ?_, slab, ledger⟩, kept⟩
  exact ⟨fits.least, fits.limit, fits.roomy, fits.bounded, length, fits.sized⟩

theorem Holds.clear (holds : machine.Holds buffer rest) :
    ∃ next, machine.clear = some next ∧ next.Holds buffer.clear rest ∧
      Keeps machine.memory next.memory rest := by
  have fits := holds.fits
  obtain ⟨memory, copied, slab, length, ledger, kept⟩ :=
    @Holds.write _ _ _ [0] holds 0 fits.roomy (Nat.zero_le _)
  refine ⟨⟨memory, { machine.object with mLength := 0 }⟩, ?_, ⟨?_, ?_, slab, ledger⟩, kept⟩
  · rw [Machine.clear, holds.cPtr, copied]
    rfl
  · rw [holds.object]
    rfl
  · exact ⟨fits.least, fits.limit, fits.roomy, fits.bounded, length, fits.sized⟩

theorem Holds.setSize (holds : machine.Holds buffer rest) {count : Nat}
    (inside : count ≤ buffer.mCapacity) :
    (machine.setSize count).Holds (buffer.setSize count) rest := by
  have fits := holds.fits
  refine ⟨?_, ⟨fits.least, fits.limit, fits.roomy, fits.bounded, fits.written, inside⟩, holds.slab,
    holds.ledger⟩
  change { machine.object with mLength := count, mSize := count } = _
  rw [holds.object]
  rfl

theorem Holds.destroy (holds : machine.Holds buffer rest) :
    machine.destroy = some (machine.memory.erase machine.object.memPtr) ∧
      Memory.Ledger (machine.memory.erase machine.object.memPtr) rest ∧
      Keeps machine.memory (machine.memory.erase machine.object.memPtr) rest := by
  obtain ⟨released, ledger⟩ := holds.ledger.release
  have nonnull : machine.object.memPtr ≠ 0 := by
    intro null
    exact holds.ledger.nonnull (null ▸ List.mem_cons_self)
  have roomy : 0 < machine.object.mCapacity := by
    rw [holds.mCapacity]
    exact holds.fits.roomy
  refine ⟨?_, ledger, .of_others holds.memPtr_not_mem fun other different =>
    Finmap.lookup_erase_ne different⟩
  rw [Machine.destroy, if_pos ⟨nonnull, roomy⟩, released]

/-- A new slab with the bytes of another buffer. -/
theorem Holds.duplicate (holds : machine.Holds buffer rest) (exact : allocator.Exact)
    (defined : buffer.mSize ≤ buffer.memory.length) {strategy : BufferMallocator}
    (least : 0 < strategy.minSize) :
    ∃ memory pointer, duplicate allocator strategy machine.object machine.memory =
        some (memory, pointer) ∧
      (∃ bytes, memory.lookup pointer = some bytes ∧ buffer.mCapacity ≤ bytes.length ∧
        peek buffer.memory buffer.mSize <+: bytes) ∧
      memory.Ledger (pointer :: machine.object.memPtr :: rest) ∧
      Keeps machine.memory memory (machine.object.memPtr :: rest) := by
  have fits := holds.fits
  have some : 0 < max buffer.mCapacity strategy.minSize :=
    Nat.lt_of_lt_of_le least (Nat.le_max_right _ _)
  have valid : machine.memory.HasRoom 0 0 := .inl ⟨rfl, rfl⟩
  have resized := allocator.resized machine.memory 0 (max buffer.mCapacity strategy.minSize) valid
  obtain ⟨fresh, ledger⟩ := holds.ledger.malloc exact some
  obtain ⟨bytes, found, room, begins⟩ := holds.slab
  have others : Keeps machine.memory
      (allocator.malloc machine.memory (max buffer.mCapacity strategy.minSize)).1
      (machine.object.memPtr :: rest) := by
    intro pointer member
    refine exact.others valid ?_ ?_
    · intro null
      exact holds.ledger.nonnull (null ▸ member)
    · intro same
      exact fresh (same ▸ member)
  have source : (allocator.malloc machine.memory (max buffer.mCapacity strategy.minSize)).1.read
      machine.object.memPtr buffer.mSize = Option.some (peek buffer.memory buffer.mSize) := by
    rw [Memory.read_of_lookup ((others _ List.mem_cons_self).trans found) (fits.sized.trans room)]
    obtain ⟨tail, rfl⟩ := begins
    rw [peek, Nat.sub_eq_zero_of_le defined, List.replicate_zero, List.append_nil,
      List.take_append_of_le_length defined]
  rcases resized.room with ⟨_, none⟩ | ⟨slab, there, enough⟩
  · exact absurd none (Nat.ne_of_gt some)
  · have inside : 0 + (peek buffer.memory buffer.mSize).length ≤ slab.length := by
      rw [Nat.zero_add, peek_length]
      exact fits.sized.trans ((Nat.le_max_left _ _).trans enough)
    obtain ⟨memory, copied, written, rested⟩ := Memory.memcpy_of_lookup there inside
    refine ⟨memory, _, ?_, ⟨_, written, ?_, ?_⟩, ledger.memcpy there written rested,
      others.trans (.of_others fresh rested)⟩
    · rw [Machine.duplicate, holds.mCapacity, holds.mSize]
      simp only [source, bind, Option.bind]
      rw [show (allocator.malloc machine.memory (max buffer.mCapacity strategy.minSize)).1.memcpy
        (allocator.malloc machine.memory (max buffer.mCapacity strategy.minSize)).2 0
          (peek buffer.memory buffer.mSize) = Option.some memory from copied]
      rfl
    · simp only [List.length_append, List.length_take, List.length_drop, peek_length]
      have capacity := (Nat.le_max_left buffer.mCapacity strategy.minSize).trans enough
      have sized := fits.sized
      omega
    · rw [List.take_zero, List.nil_append]
      exact List.prefix_append _ _

theorem Holds.copyConstruct (holds : machine.Holds buffer rest) (exact : allocator.Exact)
    (defined : buffer.mSize ≤ buffer.memory.length) (garbage : Nat) :
    ∃ copy after, buffer.copyConstruct garbage = .ok copy ∧
      copyConstruct allocator machine.object garbage machine.memory = some (.ok after) ∧
      after.Holds copy (machine.object.memPtr :: rest) ∧
      Keeps machine.memory after.memory (machine.object.memPtr :: rest) := by
  have fits := holds.fits
  have small : ¬ buffer.mCapacity > buffer.strategy.maxSize := Nat.not_lt.mpr fits.bounded
  obtain ⟨memory, pointer, copied, slab, ledger, kept⟩ :=
    holds.duplicate exact defined fits.least
  have sized : (peek buffer.memory buffer.mSize).length ≤ buffer.mCapacity := by
    rw [peek_length]
    exact fits.sized
  refine ⟨⟨buffer.strategy, peek buffer.memory buffer.mSize, garbage, buffer.mCapacity, buffer.mSize⟩,
    ⟨memory, ⟨buffer.strategy, pointer, pointer, garbage, buffer.mCapacity, buffer.mSize⟩⟩,
    ?_, ?_, ⟨rfl, ?_, slab, ledger⟩, kept⟩
  · simp only [ContigBuffer.copyConstruct, BufferMallocator.allocate, if_neg small]
    rfl
  · simp only [Machine.copyConstruct, BufferMallocator.allocate, holds.mCapacity, holds.strategy,
      if_neg small, pure, Except.pure, copied, holds.mSize]
    rfl
  · exact ⟨fits.least, fits.limit, fits.roomy, fits.bounded, sized, fits.sized⟩

/-- The target gets a slab of its own, and nothing has the one it had. -/
theorem Holds.copyAssign (holds : machine.Holds buffer rest) (exact : allocator.Exact)
    (defined : buffer.mSize ≤ buffer.memory.length) {target : BufferObject} {into : ContigBuffer}
    (object : target = into.objectAt target.memPtr) (fitting : into.Fits)
    (room : buffer.mCapacity ≤ into.strategy.maxSize) :
    ∃ copy after, into.copyAssign buffer = (copy, none) ∧
      copyAssign allocator ⟨machine.memory, target⟩ machine.object = some (after, none) ∧
      after.Holds copy (machine.object.memPtr :: rest) ∧
      Keeps machine.memory after.memory (machine.object.memPtr :: rest) := by
  have fits := holds.fits
  have strategy : target.strategy = into.strategy := congrArg BufferObject.strategy object
  have length : target.mLength = into.mLength := congrArg BufferObject.mLength object
  obtain ⟨memory, pointer, copied, slab, ledger, kept⟩ :=
    holds.duplicate exact defined fitting.least
  have sized : (peek buffer.memory buffer.mSize).length ≤ buffer.mCapacity := by
    rw [peek_length]
    exact fits.sized
  refine ⟨_, ⟨memory, ⟨into.strategy, pointer, pointer, into.mLength, buffer.mCapacity,
    buffer.mSize⟩⟩, copyAssign_of_room room, ?_, ⟨rfl, ?_, slab, ledger⟩, kept⟩
  · simp only [Machine.copyAssign, BufferMallocator.allocate, holds.mCapacity, strategy,
      if_neg (Nat.not_lt.mpr room), pure, Except.pure, copied, holds.mSize, length]
    rfl
  · exact ⟨fitting.least, fitting.limit, fits.roomy, room, sized, fits.sized⟩

/-- A new buffer in a memory with the given owned pointers. -/
theorem ofCapacity_holds {memory : Memory} {owned : List Nat} (ledger : memory.Ledger owned)
    (exact : allocator.Exact) {strategy : BufferMallocator} (least : 0 < strategy.minSize)
    (limit : strategy.maxSize < 2 ^ 62) (capacity : Nat) :
    (∃ fault, ContigBuffer.ofCapacity strategy capacity = .error fault ∧
        ofCapacity allocator strategy capacity memory = .error fault) ∨
      ∃ fresh after, ContigBuffer.ofCapacity strategy capacity = .ok fresh ∧
        ofCapacity allocator strategy capacity memory = .ok after ∧ after.Holds fresh owned ∧
        Keeps memory after.memory owned ∧ fresh.mLength = 0 := by
  by_cases big : max capacity strategy.minSize > strategy.maxSize
  · refine .inl ⟨.requestedAllocationTooBig, ContigBuffer.ofCapacity_error strategy capacity big, ?_⟩
    simp only [ofCapacity, BufferMallocator.allocate, if_pos big]
    rfl
  · have small := Nat.le_of_not_lt big
    have valid : memory.HasRoom 0 0 := .inl ⟨rfl, rfl⟩
    have roomy : 0 < max capacity strategy.minSize :=
      Nat.lt_of_lt_of_le least (Nat.le_max_right _ _)
    have some : 0 < max (max capacity strategy.minSize) strategy.minSize :=
      Nat.lt_of_lt_of_le roomy (Nat.le_max_left _ _)
    have resized := allocator.resized memory 0 (max (max capacity strategy.minSize) strategy.minSize)
      valid
    obtain ⟨fresh, grown⟩ := ledger.malloc exact some
    refine .inr ⟨_, ⟨(allocator.malloc memory
      (max (max capacity strategy.minSize) strategy.minSize)).1, ⟨strategy, (allocator.malloc memory
        (max (max capacity strategy.minSize) strategy.minSize)).2, (allocator.malloc memory
          (max (max capacity strategy.minSize) strategy.minSize)).2, 0, max capacity strategy.minSize,
            0⟩⟩, ContigBuffer.ofCapacity_ok strategy capacity small, ?_, ⟨rfl, ?_, ?_, grown⟩, ?_, rfl⟩
    · simp only [ofCapacity, BufferMallocator.allocate, if_neg big]
      rfl
    · exact ⟨least, limit, roomy, small, Nat.zero_le _, Nat.zero_le _⟩
    · rcases resized.room with ⟨_, none⟩ | ⟨bytes, found, enough⟩
      · exact absurd none (Nat.ne_of_gt some)
      · exact ⟨bytes, found, (Nat.le_max_left _ _).trans enough, List.nil_prefix⟩
    · intro pointer member
      refine exact.others valid ?_ ?_
      · intro null
        exact ledger.nonnull (null ▸ member)
      · intro same
        exact fresh (same ▸ member)

theorem ofString_holds {memory : Memory} {owned : List Nat} (ledger : memory.Ledger owned)
    (exact : allocator.Exact) {strategy : BufferMallocator} (least : 0 < strategy.minSize)
    (limit : strategy.maxSize < 2 ^ 62) {text : Bytes} (short : text.length < 2 ^ 62) :
    (∃ fault, ContigBuffer.ofString strategy text = .error fault ∧
        ofString allocator strategy text memory = some (memory, .error fault)) ∨
      ∃ fresh, ∃ after : Machine, ContigBuffer.ofString strategy text = .ok fresh ∧
        ofString allocator strategy text memory = some (after.memory, .ok after.object) ∧
        after.Holds fresh owned ∧ Keeps memory after.memory owned := by
  rcases ofCapacity_holds ledger exact least limit text.length with
    ⟨fault, refused, same⟩ | ⟨fresh, begun, made, same, holds, kept, empty⟩
  · refine .inl ⟨fault, ?_, ?_⟩
    · simp only [ContigBuffer.ofString, refused, bind, Except.bind]
    · simp only [ofString, same]
  · have small : fresh.mLength + text.length ≤ fresh.strategy.maxSize := by
      by_cases room : max text.length strategy.minSize ≤ strategy.maxSize
      · rw [ContigBuffer.ofCapacity_ok strategy _ room] at made
        cases made
        rw [Nat.zero_add]
        exact (Nat.le_max_left _ _).trans room
      · rw [ContigBuffer.ofCapacity_error strategy _ (Nat.lt_of_not_le room)] at made
        cases made
    rcases holds.appendTo exact short (by rw [empty]; exact Nat.zero_le _) with
      ⟨fault, refused, _⟩ | ⟨after, appended, done, filled, later⟩
    · rw [append_exists small] at refused
      cases refused
    · refine .inr ⟨fresh.appended text, after, ?_, ?_, filled, kept.trans later⟩
      · simp only [ContigBuffer.ofString, made, bind, Except.bind]
        exact appended
      · simp only [ofString, same, done, bind, Option.bind]
        rfl

end Machine

end Marvin.Buffer
