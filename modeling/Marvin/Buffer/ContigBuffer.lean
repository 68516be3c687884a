import Marvin.Fault
import Marvin.Data.Bytes

namespace Marvin.Buffer

open Marvin.Data

/-! # Contiguous buffers

`marvin/buffer/contig_buffer.hpp` over the strategy of
`marvin/buffer/buffer_allocator.hpp`.  A slab is represented by the bytes
written into it so far; a byte that was never written reads as zero.
`reallocate` has no return statement and is read as returning `realloc`'s
result.
-/

structure BufferMallocator where
  minSize : Nat
  maxSize : Nat
deriving DecidableEq, Repr

namespace BufferMallocator

/-- The strategy behind `getTestFactory()`, which every message body and every
serialized head uses. -/
def standard : BufferMallocator := ⟨256, 1024 * 1024⟩

/-- `TunnelAllocator`. -/
def tunnel : BufferMallocator := ⟨1024 * 128, 1024 * 1024⟩

def allocate (strategy : BufferMallocator) (size : Nat) : Except Fault Unit :=
  if size > strategy.maxSize then throw .requestedAllocationTooBig else pure ()

def reallocateSize (strategy : BufferMallocator) (originalSize newSize : Nat) :
    Except Fault Nat :=
  if newSize > strategy.maxSize then throw .requestedAllocationTooBig
  else pure (max newSize (min strategy.maxSize (2 * originalSize)))

def reallocate (strategy : BufferMallocator) (newSize : Nat) : Except Fault Unit :=
  if newSize > strategy.maxSize then throw .requestedAllocationTooBig else pure ()

end BufferMallocator

def peek (memory : Bytes) (count : Nat) : Bytes :=
  memory.take count ++ List.replicate (count - memory.length) 0

def writeAt (memory : Bytes) (offset : Nat) (data : Bytes) : Bytes :=
  peek memory offset ++ data ++ memory.drop (offset + data.length)

@[simp] theorem peek_length (memory : Bytes) (count : Nat) : (peek memory count).length = count := by
  simp [peek]
  omega

@[simp] theorem peek_peek (memory : Bytes) (count : Nat) :
    peek (peek memory count) count = peek memory count := by
  have whole : (peek memory count).take count = peek memory count :=
    List.take_of_length_le (peek_length memory count).le
  conv_lhs => rw [peek, whole]
  simp

theorem peek_writeAt (memory data : Bytes) (offset : Nat) :
    peek (writeAt memory offset data) (offset + data.length) = peek memory offset ++ data := by
  have front : (peek memory offset ++ data).length = offset + data.length := by simp
  have filled : offset + data.length - (writeAt memory offset data).length = 0 := by
    simp [writeAt]
  rw [peek, filled, List.replicate_zero, List.append_nil, writeAt, ← front, List.take_left]

structure ContigBuffer where
  strategy : BufferMallocator
  memory : Bytes
  mLength : Nat
  mCapacity : Nat
  mSize : Nat
deriving DecidableEq, Repr

namespace ContigBuffer

def ofCapacity (strategy : BufferMallocator) (capacity : Nat) : Except Fault ContigBuffer := do
  let capacity := max capacity strategy.minSize
  strategy.allocate capacity
  return { strategy, memory := [], mLength := 0, mCapacity := capacity, mSize := 0 }

/-- The constructor without a capacity, for a strategy whose least size is
within its limit. -/
def ofStrategy (strategy : BufferMallocator) : ContigBuffer where
  strategy := strategy
  memory := []
  mLength := 0
  mCapacity := strategy.minSize
  mSize := 0

def size (buffer : ContigBuffer) : Nat := buffer.mLength

def capacity (buffer : ContigBuffer) : Nat := buffer.mCapacity

/-- The bytes from `data()` up to `size()`. -/
def contents (buffer : ContigBuffer) : Bytes := peek buffer.memory buffer.mLength

def toString (buffer : ContigBuffer) : Bytes := peek buffer.memory buffer.mSize

def append (buffer : ContigBuffer) (data : Bytes) : Except Fault ContigBuffer := do
  let capacity ←
    if buffer.mLength + data.length ≥ buffer.mCapacity then do
      let newCapacity ←
        buffer.strategy.reallocateSize buffer.mCapacity (buffer.mLength + data.length)
      buffer.strategy.reallocate newCapacity
      pure newCapacity
    else pure buffer.mCapacity
  return { buffer with
    memory := writeAt buffer.memory buffer.mLength data
    mLength := buffer.mLength + data.length
    mCapacity := capacity
    mSize := buffer.mLength + data.length }

def setSize (buffer : ContigBuffer) (count : Nat) : ContigBuffer :=
  { buffer with mLength := count, mSize := count }

def ofString (strategy : BufferMallocator) (text : Bytes) : Except Fault ContigBuffer := do
  let buffer ← ofCapacity strategy text.length
  buffer.append text

/-- The copy constructor does not set `m_length`: it is what the memory of the
new object happens to hold. -/
def copyConstruct (other : ContigBuffer) (garbage : Nat) : Except Fault ContigBuffer := do
  other.strategy.allocate other.mCapacity
  return {
    strategy := other.strategy
    memory := peek other.memory other.mSize
    mLength := garbage
    mCapacity := other.mCapacity
    mSize := other.mSize }

/-- Copy assignment does not set `m_length` either.  Assigning the strategy, a
reference to an interface without data, changes nothing. -/
def copyAssign (buffer other : ContigBuffer) : ContigBuffer × Option Fault :=
  let buffer := { buffer with mCapacity := other.mCapacity }
  match buffer.strategy.allocate other.mCapacity with
  | .ok () => ({ buffer with memory := peek other.memory other.mSize, mSize := other.mSize }, none)
  | .error fault => (buffer, some fault)

/-- `clear` resets `m_length` and not `m_size`. -/
def clear (buffer : ContigBuffer) : ContigBuffer :=
  { buffer with memory := writeAt buffer.memory 0 [0], mLength := 0 }

/-- The bytes a socket read puts at `data()`; the size is left as it is. -/
def receive (buffer : ContigBuffer) (data : Bytes) : ContigBuffer :=
  { buffer with memory := writeAt buffer.memory 0 data }

@[simp] theorem contents_length (buffer : ContigBuffer) : buffer.contents.length = buffer.size :=
  peek_length buffer.memory buffer.mLength

theorem size_of_contents {buffer : ContigBuffer} {text : Bytes} (same : buffer.contents = text) :
    buffer.size = text.length := by
  rw [← same, contents_length]

def grownCapacity (buffer : ContigBuffer) (data : Bytes) : Nat :=
  if buffer.mLength + data.length ≥ buffer.mCapacity then
    max (buffer.mLength + data.length) (min buffer.strategy.maxSize (2 * buffer.mCapacity))
  else buffer.mCapacity

theorem length_le_grownCapacity (buffer : ContigBuffer) (data : Bytes) :
    buffer.mLength + data.length ≤ buffer.grownCapacity data := by
  unfold grownCapacity
  split <;> omega

theorem grownCapacity_bounds {buffer : ContigBuffer} {data : Bytes}
    (bounded : buffer.mCapacity ≤ buffer.strategy.maxSize)
    (room : buffer.mLength + data.length ≤ buffer.strategy.maxSize) :
    buffer.mLength + data.length ≤ buffer.grownCapacity data ∧
      buffer.grownCapacity data ≤ buffer.strategy.maxSize ∧
      buffer.mCapacity ≤ buffer.grownCapacity data := by
  refine ⟨length_le_grownCapacity buffer data, ?_⟩
  unfold grownCapacity
  split <;> omega

/-- The buffer a successful append leaves. -/
def appended (buffer : ContigBuffer) (data : Bytes) : ContigBuffer :=
  { buffer with
    memory := writeAt buffer.memory buffer.mLength data
    mLength := buffer.mLength + data.length
    mCapacity := buffer.grownCapacity data
    mSize := buffer.mLength + data.length }

/-- An append fails only where it has to grow beyond the allocator's limit. -/
def Overgrows (buffer : ContigBuffer) (data : Bytes) : Prop :=
  buffer.mLength + data.length ≥ buffer.mCapacity ∧
    buffer.strategy.maxSize < buffer.mLength + data.length

instance (buffer : ContigBuffer) (data : Bytes) : Decidable (buffer.Overgrows data) :=
  inferInstanceAs (Decidable (_ ∧ _))

theorem append_eq (buffer : ContigBuffer) (data : Bytes) :
    buffer.append data =
      if buffer.Overgrows data then .error .requestedAllocationTooBig
      else .ok (buffer.appended data) := by
  by_cases grows : buffer.mLength + data.length ≥ buffer.mCapacity
  · by_cases room : buffer.mLength + data.length ≤ buffer.strategy.maxSize
    · have bound : ¬ max (buffer.mLength + data.length)
          (min buffer.strategy.maxSize (2 * buffer.mCapacity)) > buffer.strategy.maxSize := by omega
      rw [if_neg (fun large => Nat.not_lt.mpr room large.2)]
      simp only [append, if_pos grows, BufferMallocator.reallocateSize,
        if_neg (Nat.not_lt.mpr room), BufferMallocator.reallocate, bind, Except.bind, pure,
        Except.pure, if_neg bound, appended, grownCapacity]
    · have big : buffer.mLength + data.length > buffer.strategy.maxSize := Nat.lt_of_not_le room
      rw [if_pos ⟨grows, big⟩]
      simp only [append, if_pos grows, BufferMallocator.reallocateSize, if_pos big]
      rfl
  · rw [if_neg (fun large => grows large.1)]
    simp only [append, if_neg grows, bind, Except.bind, pure, Except.pure, appended, grownCapacity]

theorem append_eq_ok {buffer after : ContigBuffer} {data : Bytes} :
    buffer.append data = .ok after ↔ ¬ buffer.Overgrows data ∧ after = buffer.appended data := by
  rw [append_eq]
  split
  · next large => simp [large]
  · next room => simp [room, eq_comm]

@[simp] theorem appended_contents (buffer : ContigBuffer) (data : Bytes) :
    (buffer.appended data).contents = buffer.contents ++ data :=
  peek_writeAt buffer.memory data buffer.mLength

theorem append_contents {buffer after : ContigBuffer} {data : Bytes}
    (appended : buffer.append data = .ok after) : after.contents = buffer.contents ++ data := by
  rw [(append_eq_ok.mp appended).2, appended_contents]

theorem append_exists {buffer : ContigBuffer} {data : Bytes}
    (room : buffer.mLength + data.length ≤ buffer.strategy.maxSize) :
    buffer.append data = .ok (buffer.appended data) :=
  append_eq_ok.mpr ⟨fun large => Nat.not_lt.mpr room large.2, rfl⟩

/-- Pieces whose total is within the allocator's limit can be appended to any
buffer. -/
theorem appendAll_exists {buffer : ContigBuffer} (pieces : List Bytes)
    (room : buffer.mLength + pieces.flatten.length ≤ buffer.strategy.maxSize) :
    ∃ after, pieces.foldlM append buffer = .ok after ∧
      after.contents = buffer.contents ++ pieces.flatten := by
  induction pieces generalizing buffer with
  | nil => exact ⟨buffer, rfl, by simp⟩
  | cons piece rest ih =>
      simp only [List.flatten_cons, List.length_append] at room
      obtain ⟨after, rested, text⟩ := @ih (buffer.appended piece) (by
        change buffer.mLength + piece.length + _ ≤ buffer.strategy.maxSize
        omega)
      refine ⟨after, ?_, ?_⟩
      · rw [List.foldlM_cons, append_exists (by omega)]
        exact rested
      · rw [text, appended_contents]
        simp

theorem filled_contents {strategy : BufferMallocator} {capacity : Nat} {block filled : ContigBuffer}
    {data : Bytes} (allocated : ofCapacity strategy capacity = .ok block)
    (stored : block.append data = .ok filled) : filled.contents = data := by
  have fresh : block.contents = [] := by
    obtain ⟨_, _, rest⟩ := exists_ok_of_bind allocated
    cases rest
    rfl
  rw [append_contents stored, fresh, List.nil_append]

theorem peek_receive (buffer : ContigBuffer) (data : Bytes) :
    peek (buffer.receive data).memory data.length = data := by
  simp [receive, writeAt, peek]

/-- The state of a buffer that was only constructed and appended to. -/
structure Sound (buffer : ContigBuffer) : Prop where
  filled : buffer.memory.length = buffer.mLength
  sizes : buffer.mSize = buffer.mLength
  fits : buffer.mLength ≤ buffer.mCapacity
  bounded : buffer.mCapacity ≤ buffer.strategy.maxSize

theorem Sound.toString_eq {buffer : ContigBuffer} (sound : buffer.Sound) :
    buffer.toString = buffer.contents := by
  rw [toString, contents, sound.sizes]

theorem ofCapacity_ok (strategy : BufferMallocator) (capacity : Nat)
    (room : max capacity strategy.minSize ≤ strategy.maxSize) :
    ofCapacity strategy capacity = .ok {
      strategy, memory := [], mLength := 0, mCapacity := max capacity strategy.minSize
      mSize := 0 } := by
  simp only [ofCapacity, BufferMallocator.allocate, if_neg (Nat.not_lt.mpr room)]
  rfl

theorem ofCapacity_error (strategy : BufferMallocator) (capacity : Nat)
    (big : strategy.maxSize < max capacity strategy.minSize) :
    ofCapacity strategy capacity = .error .requestedAllocationTooBig := by
  simp only [ofCapacity, BufferMallocator.allocate, if_pos big]
  rfl

theorem append_ok {buffer : ContigBuffer} (sound : buffer.Sound) (data : Bytes)
    (room : buffer.mLength + data.length ≤ buffer.strategy.maxSize) :
    ∃ after, buffer.append data = .ok after ∧ after.Sound ∧
      after.contents = buffer.contents ++ data ∧ after.strategy = buffer.strategy ∧
      after.mLength = buffer.mLength + data.length ∧
      after.mCapacity = buffer.grownCapacity data := by
  have written : (buffer.appended data).memory = buffer.memory ++ data := by
    simp [appended, writeAt, peek, ← sound.filled]
  have grown := grownCapacity_bounds sound.bounded room
  refine ⟨buffer.appended data, append_exists room, ⟨?_, rfl, grown.1, grown.2.1⟩,
    appended_contents buffer data, rfl, rfl, rfl⟩
  rw [written, List.length_append, sound.filled]
  rfl

theorem appendAll_ok {buffer : ContigBuffer} (sound : buffer.Sound) (pieces : List Bytes)
    (room : buffer.mLength + pieces.flatten.length ≤ buffer.strategy.maxSize) :
    ∃ after, pieces.foldlM append buffer = .ok after ∧
      after.Sound ∧ after.contents = buffer.contents ++ pieces.flatten := by
  induction pieces generalizing buffer with
  | nil => exact ⟨buffer, rfl, sound, by simp⟩
  | cons piece rest ih =>
      simp only [List.flatten_cons, List.length_append] at room
      obtain ⟨next, appended, nextSound, contents, strategy, length, _⟩ :=
        append_ok sound piece (by omega)
      obtain ⟨after, rested, afterSound, text⟩ := ih nextSound (by rw [length, strategy]; omega)
      refine ⟨after, ?_, afterSound, ?_⟩
      · rw [List.foldlM_cons, appended]
        exact rested
      · rw [text, contents]
        simp

theorem append_error {buffer : ContigBuffer} (sound : buffer.Sound) {data : Bytes}
    (big : buffer.strategy.maxSize < buffer.mLength + data.length) :
    buffer.append data = .error .requestedAllocationTooBig := by
  have grows : buffer.mLength + data.length ≥ buffer.mCapacity :=
    sound.bounded.trans (Nat.le_of_lt big)
  rw [append_eq, if_pos ⟨grows, big⟩]

theorem appendAll_error {buffer : ContigBuffer} (sound : buffer.Sound) (pieces : List Bytes)
    (big : buffer.strategy.maxSize < buffer.mLength + pieces.flatten.length) :
    pieces.foldlM append buffer = .error .requestedAllocationTooBig := by
  induction pieces generalizing buffer with
  | nil =>
      have fits := sound.fits.trans sound.bounded
      rw [List.flatten_nil, List.length_nil] at big
      omega
  | cons piece rest ih =>
      by_cases room : buffer.mLength + piece.length ≤ buffer.strategy.maxSize
      · obtain ⟨next, appended, nextSound, _, strategy, length, _⟩ := append_ok sound piece room
        rw [List.foldlM_cons, appended]
        apply ih nextSound
        rw [strategy, length, Nat.add_assoc]
        simpa using big
      · rw [List.foldlM_cons, append_error sound (Nat.lt_of_not_le room)]
        rfl

end ContigBuffer

end Marvin.Buffer
