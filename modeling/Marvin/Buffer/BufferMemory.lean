import Marvin.Buffer.ContigBuffer
import Marvin.Data.Memory

namespace Marvin.Buffer

open Marvin.Data

/-! # Buffers in memory

`ContigBuffer` as an object with pointers: its members are assigned one after the
other, in the arithmetic of `size_t`, and its slab is a block of `malloc` or `realloc`.
An exception leaves the members as they are at that point.  A `ContigBuffer` without
pointers is what such an object shows.
-/

def sizeT (value : Nat) : Nat := value % 2 ^ 64

theorem sizeT_of_lt {value : Nat} (small : value < 2 ^ 64) : sizeT value = value :=
  Nat.mod_eq_of_lt small

/-- The ways a method is left early: an exception, or a write outside of the slab. -/
inductive Trap where
  | thrown (fault : Fault)
  | overrun
deriving DecidableEq, Repr

structure BufferObject where
  strategy : BufferMallocator
  memPtr : Nat
  cPtr : Nat
  mLength : Nat
  mCapacity : Nat
  mSize : Nat
deriving DecidableEq, Repr

structure Machine where
  memory : Memory
  object : BufferObject
deriving DecidableEq

abbrev Action := EStateM Trap Machine

namespace Machine

variable (allocator : Allocator)

/-- The constructor with a capacity. -/
def ofCapacity (strategy : BufferMallocator) (cap : Nat) (memory : Memory) : Except Fault Machine := do
  let capacity := max cap strategy.minSize
  strategy.allocate capacity
  let (memory, pointer) := allocator.malloc memory (max capacity strategy.minSize)
  return ⟨memory, ⟨strategy, pointer, pointer, 0, capacity, 0⟩⟩

/-- The allocators derived from `BufferMallocator` repeat this body. -/
def reallocateSize (strategy : BufferMallocator) (originalSize newSize : Nat) : Action Nat := do
  if newSize > strategy.maxSize then throw (.thrown .requestedAllocationTooBig)
  return max newSize (min strategy.maxSize (sizeT (2 * originalSize)))

def reallocate (strategy : BufferMallocator) (pointer newSize : Nat) : Action Nat := do
  if newSize > strategy.maxSize then throw (.thrown .requestedAllocationTooBig)
  let machine ← get
  let (memory, moved) := allocator.realloc machine.memory pointer newSize
  set { machine with memory }
  return moved

def memcpy (pointer offset : Nat) (data : Bytes) : Action Unit := do
  let machine ← get
  match machine.memory.memcpy pointer offset data with
  | some memory => set { machine with memory }
  | none => throw .overrun

def assign (change : BufferObject → BufferObject) : Action Unit :=
  modify fun machine => { machine with object := change machine.object }

/-- `append` up to the call of `memcpy`. -/
def expand (data : Bytes) : Action Unit := do
  let object := (← get).object
  if sizeT (object.mLength + data.length) ≥ object.mCapacity then
    let newCapacity ← reallocateSize object.strategy object.mCapacity
      (sizeT (object.mLength + data.length))
    let tmp ← reallocate allocator object.strategy object.memPtr newCapacity
    assign fun object => { object with memPtr := tmp }
    assign fun object => { object with cPtr := object.memPtr }
    assign fun object => { object with mCapacity := newCapacity }

/-- The rest of `append`. -/
def store (data : Bytes) : Action Unit := do
  let object := (← get).object
  memcpy object.cPtr object.mLength data
  assign fun object => { object with mLength := sizeT (object.mLength + data.length) }
  assign fun object => { object with mSize := object.mLength }
  assign fun object => { object with cPtr := object.memPtr }

/-- The data lies outside of the slab. -/
def append (data : Bytes) : Action Unit := do
  expand allocator data
  store data

/-- The bytes from `data()` up to `size()`. -/
def contents (machine : Machine) : Bytes :=
  (machine.memory.block machine.object.memPtr).take machine.object.mLength

/-- What the object shows, without its pointers. -/
def view (machine : Machine) : ContigBuffer where
  strategy := machine.object.strategy
  memory := machine.contents
  mLength := machine.object.mLength
  mCapacity := machine.object.mCapacity
  mSize := machine.object.mSize

/-- The object of a buffer in its memory: the slab has the bytes that the capacity says. -/
structure Owns (machine : Machine) : Prop where
  pointers : machine.object.cPtr = machine.object.memPtr
  room : machine.memory.HasRoom machine.object.memPtr machine.object.mCapacity

variable {allocator} {machine : Machine} {data : Bytes}

theorem contents_length (owns : machine.Owns)
    (fits : machine.object.mLength ≤ machine.object.mCapacity) :
    machine.contents.length = machine.object.mLength :=
  List.length_take_of_le (Nat.le_trans fits owns.room.bytes)

section Expand

variable {total : Nat} (summed : sizeT (machine.object.mLength + data.length) = total)

include summed

theorem expand_error (big : machine.object.mCapacity ≤ total)
    (beyond : machine.object.strategy.maxSize < total) :
    expand allocator data machine = .error (.thrown .requestedAllocationTooBig) machine := by
  simp only [expand, bind, EStateM.bind, get, getThe, MonadStateOf.get, EStateM.get, summed, ge_iff_le,
    if_pos big, reallocateSize, gt_iff_lt, if_pos beyond]
  rfl

theorem expand_roomy (small : total < machine.object.mCapacity) :
    expand allocator data machine = .ok () machine := by
  simp only [expand, bind, EStateM.bind, get, getThe, MonadStateOf.get, EStateM.get, summed, ge_iff_le,
    if_neg (Nat.not_le.mpr small)]
  rfl

theorem expand_grown {capacity : Nat} (big : machine.object.mCapacity ≤ total)
    (within : total ≤ machine.object.strategy.maxSize)
    (grown : max total (min machine.object.strategy.maxSize (sizeT (2 * machine.object.mCapacity))) =
      capacity) :
    expand allocator data machine =
      .ok () ⟨(allocator.realloc machine.memory machine.object.memPtr capacity).1,
        { machine.object with
          memPtr := (allocator.realloc machine.memory machine.object.memPtr capacity).2
          cPtr := (allocator.realloc machine.memory machine.object.memPtr capacity).2
          mCapacity := capacity }⟩ := by
  have bounded : ¬ machine.object.strategy.maxSize < capacity := by omega
  simp only [expand, bind, EStateM.bind, get, getThe, MonadStateOf.get, EStateM.get, summed, ge_iff_le,
    if_pos big, reallocateSize, gt_iff_lt, if_neg (Nat.not_lt.mpr within), pure, EStateM.pure, grown,
    reallocate, if_neg bounded]
  rfl

end Expand

theorem store_ok (owns : machine.Owns)
    (inside : machine.object.mLength + data.length ≤ machine.object.mCapacity)
    (small : machine.object.mLength + data.length < 2 ^ 64) :
    ∃ next, store data machine = .ok () next ∧ next.Owns ∧
      machine.memory.Spares machine.object.memPtr next.memory ∧
      next.contents = machine.contents ++ data ∧
      next.object = { machine.object with
        cPtr := machine.object.memPtr
        mLength := machine.object.mLength + data.length
        mSize := machine.object.mLength + data.length } := by
  obtain ⟨memory, copied, room, text, spared⟩ := Memory.memcpy_ok owns.room inside
  refine ⟨⟨memory, { machine.object with
    cPtr := machine.object.memPtr
    mLength := machine.object.mLength + data.length
    mSize := machine.object.mLength + data.length }⟩, ?_, ⟨rfl, room⟩, spared, text, rfl⟩
  rw [← owns.pointers] at copied
  simp only [store, bind, EStateM.bind, get, getThe, MonadStateOf.get, EStateM.get, memcpy, copied,
    set, MonadStateOf.set, EStateM.set, assign, modify, modifyGet, MonadStateOf.modifyGet,
    EStateM.modifyGet, sizeT_of_lt small]

theorem expand_ok (owns : machine.Owns)
    (fits : machine.object.mLength ≤ machine.object.mCapacity)
    (bounded : machine.object.mCapacity ≤ machine.object.strategy.maxSize)
    (limit : machine.object.strategy.maxSize < 2 ^ 62)
    (within : machine.object.mLength + data.length ≤ machine.object.strategy.maxSize) :
    ∃ next, expand allocator data machine = .ok () next ∧ next.Owns ∧
      machine.memory.Spares machine.object.memPtr next.memory ∧
      (next.object.memPtr ≠ machine.object.memPtr →
        machine.memory.lookup next.object.memPtr = none) ∧
      next.contents = machine.contents ∧
      next.object = { machine.object with
        memPtr := next.object.memPtr
        cPtr := next.object.memPtr
        mCapacity := machine.view.grownCapacity data } := by
  have summed : sizeT (machine.object.mLength + data.length) = machine.object.mLength + data.length :=
    sizeT_of_lt (by omega)
  have doubled : sizeT (2 * machine.object.mCapacity) = 2 * machine.object.mCapacity :=
    sizeT_of_lt (by omega)
  by_cases big : machine.object.mCapacity ≤ machine.object.mLength + data.length
  · have capacity : max (machine.object.mLength + data.length)
        (min machine.object.strategy.maxSize (sizeT (2 * machine.object.mCapacity))) =
          machine.view.grownCapacity data := by
      rw [doubled]
      exact (if_pos big).symm
    have resized := allocator.resized machine.memory machine.object.memPtr
      (machine.view.grownCapacity data) (owns.room.mono (Nat.zero_le _))
    refine ⟨_, expand_grown summed big within capacity, ⟨rfl, resized.room⟩, resized.spared,
      resized.unused, ?_, rfl⟩
    obtain ⟨tail, kept⟩ := resized.kept
    have inside : machine.object.mLength ≤ machine.view.grownCapacity data := by omega
    change (Memory.block _ _).take machine.object.mLength = machine.contents
    rw [← kept, List.take_append_of_le_length, List.take_take, Nat.min_eq_left inside]
    · rfl
    · rw [List.length_take]
      exact Nat.le_min.mpr ⟨inside, Nat.le_trans fits owns.room.bytes⟩
  · have capacity : machine.view.grownCapacity data = machine.object.mCapacity := if_neg big
    refine ⟨machine, expand_roomy summed (Nat.lt_of_not_le big), owns, fun _ _ _ found => found,
      fun different => absurd rfl different, rfl, ?_⟩
    rw [capacity]
    exact congrArg (fun pointer => { machine.object with cPtr := pointer }) owns.pointers

section Append

variable (owns : machine.Owns) (fits : machine.object.mLength ≤ machine.object.mCapacity)
  (bounded : machine.object.mCapacity ≤ machine.object.strategy.maxSize)
  (limit : machine.object.strategy.maxSize < 2 ^ 62)

include owns fits bounded limit

theorem append_ok
    (within : machine.object.mLength + data.length ≤ machine.object.strategy.maxSize) :
    ∃ next, append allocator data machine = .ok () next ∧ next.Owns ∧
      machine.memory.Spares machine.object.memPtr next.memory ∧
      next.contents = machine.contents ++ data ∧
      next.object = { machine.object with
        memPtr := next.object.memPtr
        cPtr := next.object.memPtr
        mLength := machine.object.mLength + data.length
        mCapacity := machine.view.grownCapacity data
        mSize := machine.object.mLength + data.length } := by
  have grown := (@ContigBuffer.grownCapacity_bounds machine.view data bounded within).1
  obtain ⟨middle, expanded, ready, spared, unused, kept, object⟩ :=
    @expand_ok allocator machine data owns fits bounded limit within
  have length : middle.object.mLength = machine.object.mLength := by rw [object]
  have capacity : middle.object.mCapacity = machine.view.grownCapacity data := by rw [object]
  obtain ⟨next, stored, done, frame, text, final⟩ := @store_ok middle data ready
    (by rw [length, capacity]; exact grown) (by omega)
  refine ⟨next, ?_, done, spared.trans unused frame, by rw [text, kept], ?_⟩
  · simp only [append, bind, EStateM.bind, expanded]
    exact stored
  · rw [final, object]

omit owns in
theorem append_error (short : data.length < 2 ^ 62)
    (beyond : machine.object.strategy.maxSize < machine.object.mLength + data.length) :
    append allocator data machine = .error (.thrown .requestedAllocationTooBig) machine := by
  have summed : sizeT (machine.object.mLength + data.length) =
      machine.object.mLength + data.length := sizeT_of_lt (by omega)
  have refused := @expand_error allocator machine data _ summed (by omega) beyond
  simp only [append, bind, EStateM.bind, refused]

/-- The object does what the buffer it shows does. -/
theorem append_refines (short : data.length < 2 ^ 62) :
    (∃ fault, machine.view.append data = .error fault ∧
        append allocator data machine = .error (.thrown fault) machine) ∨
      ∃ next, machine.view.append data = .ok next.view ∧
        append allocator data machine = .ok () next ∧ next.Owns := by
  by_cases within : machine.object.mLength + data.length ≤ machine.object.strategy.maxSize
  · obtain ⟨next, done, ready, _, text, object⟩ :=
      @append_ok allocator machine data owns fits bounded limit within
    have written : writeAt machine.contents machine.object.mLength data = next.contents := by
      rw [text]
      simp [writeAt, peek, ← contents_length owns fits]
    have same : next.view = machine.view.appended data := by
      change ContigBuffer.mk next.object.strategy next.contents next.object.mLength
        next.object.mCapacity next.object.mSize = _
      rw [object, ← written]
      rfl
    exact .inr ⟨next, same ▸ ContigBuffer.append_exists within, done, ready⟩
  · have beyond := Nat.lt_of_not_le within
    refine .inl ⟨.requestedAllocationTooBig, ?_, append_error fits bounded limit short beyond⟩
    rw [ContigBuffer.append_eq, if_pos]
    exact ⟨Nat.le_trans bounded (Nat.le_of_lt beyond), beyond⟩

end Append

/-- An append throws exactly when the data does not fit within the limit, and then
nothing is changed.  Otherwise the data comes behind the old content, in a slab that
has room for both. -/
theorem append_within_slab (allocator : Allocator) (machine : Machine) (data : Bytes)
    (owns : machine.Owns) (fits : machine.object.mLength ≤ machine.object.mCapacity)
    (bounded : machine.object.mCapacity ≤ machine.object.strategy.maxSize)
    (limit : machine.object.strategy.maxSize < 2 ^ 62) (short : data.length < 2 ^ 62) :
    ((∃ fault after, append allocator data machine = .error (.thrown fault) after) ↔
      machine.object.strategy.maxSize < machine.object.mLength + data.length) ∧
    (∀ trap after, append allocator data machine = .error trap after →
      trap ≠ .overrun ∧ after = machine) ∧
    (machine.object.mLength + data.length ≤ machine.object.strategy.maxSize →
      ∃ after, append allocator data machine = .ok () after ∧ after.Owns ∧
        machine.memory.Spares machine.object.memPtr after.memory ∧
        after.object.strategy = machine.object.strategy ∧
        after.object.mLength = machine.object.mLength + data.length ∧
        after.object.mLength ≤ after.object.mCapacity ∧
        after.object.mCapacity ≤ machine.object.strategy.maxSize ∧
        machine.object.mCapacity ≤ after.object.mCapacity ∧
        after.contents = machine.contents ++ data) := by
  by_cases within : machine.object.mLength + data.length ≤ machine.object.strategy.maxSize
  · obtain ⟨next, done, ready, spared, text, object⟩ :=
      @append_ok allocator machine data owns fits bounded limit within
    obtain ⟨enough, most, least⟩ :=
      @ContigBuffer.grownCapacity_bounds machine.view data bounded within
    have capacity : next.object.mCapacity = machine.view.grownCapacity data := by rw [object]
    have length : next.object.mLength = machine.object.mLength + data.length := by rw [object]
    refine ⟨⟨fun thrown => ?_, fun beyond => absurd within (Nat.not_le.mpr beyond)⟩,
      fun trap after failed => ?_, fun _ => ⟨next, done, ready, spared, by rw [object], length, ?_,
        ?_, ?_, text⟩⟩
    · obtain ⟨_, _, failed⟩ := thrown
      cases done.symm.trans failed
    · cases done.symm.trans failed
    · rw [length, capacity]
      exact enough
    · rw [capacity]
      exact most
    · rw [capacity]
      exact least
  · have beyond := Nat.lt_of_not_le within
    have refused := @append_error allocator machine data fits bounded limit short beyond
    refine ⟨⟨fun _ => beyond, fun _ => ⟨_, _, refused⟩⟩, fun trap after failed => ?_,
      fun small => absurd small within⟩
    cases refused.symm.trans failed
    exact ⟨Trap.noConfusion, rfl⟩

/-- A full buffer whose doubled capacity is beyond the limit. -/
def nearlyAtLimit : Machine :=
  ⟨(∅ : Memory).insert 1 (ascii "ab"), ⟨⟨2, 3⟩, 1, 1, 2, 2, 2⟩⟩

theorem filled_up_to_limit :
    ∃ after, append .moving (ascii "c") nearlyAtLimit = .ok () after ∧
      after.contents = ascii "abc" ∧ after.object.mCapacity = 3 := by
  have owns : nearlyAtLimit.Owns := ⟨rfl, .inr ⟨ascii "ab", Finmap.lookup_insert _, by decide⟩⟩
  obtain ⟨_, _, appended⟩ := append_within_slab .moving nearlyAtLimit (ascii "c") owns (by decide)
    (by decide) (by decide) (by decide)
  obtain ⟨after, done, _, _, _, length, enough, most, _, text⟩ := appended (by decide)
  refine ⟨after, done, ?_, Nat.le_antisymm most ?_⟩
  · rw [text]
    decide
  · rw [length] at enough
    exact enough

end Machine

end Marvin.Buffer
