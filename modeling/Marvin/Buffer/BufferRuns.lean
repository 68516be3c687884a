import Marvin.Buffer.ContigBuffer
import Marvin.Data.Heap
import Marvin.Data.Transition

namespace Marvin.Buffer

open Marvin.Data

/-! # Buffers in use

Any number of `ContigBuffer` objects, made by the constructors and changed by
the members of `marvin/buffer/contig_buffer.hpp`.  A constructor that throws
makes no object; a member that throws leaves its object as it then is.
-/

abbrev BufferStore := List ContigBuffer

inductive BufferOperation where
  | ofCapacity (strategy : BufferMallocator) (capacity : Nat)
  | ofString (strategy : BufferMallocator) (text : Bytes)
  | copyConstruct (source garbage : Nat)
  | copyAssign (target source : Nat)
  | append (slot : Nat) (data : Bytes)
  | clear (slot : Nat)
  | setSize (slot count : Nat)
deriving DecidableEq, Repr

namespace BufferStore

def made (store : BufferStore) : Except Fault ContigBuffer → BufferStore × Option Fault
  | .ok buffer => (store ++ [buffer], none)
  | .error fault => (store, some fault)

/-- The store after an operation and what it throws, if the objects it names are
there and `setSize` is called within the capacity. -/
def perform (store : BufferStore) : BufferOperation → Option (BufferStore × Option Fault)
  | .ofCapacity strategy capacity => some (made store (ContigBuffer.ofCapacity strategy capacity))
  | .ofString strategy text => some (made store (ContigBuffer.ofString strategy text))
  | .copyConstruct source garbage =>
      store[source]?.map fun other => made store (other.copyConstruct garbage)
  | .copyAssign target source =>
      store[target]?.bind fun buffer => store[source]?.map fun other =>
        if target = source then (store, none)
        else (store.set target (buffer.copyAssign other).1, (buffer.copyAssign other).2)
  | .append slot data =>
      store[slot]?.map fun buffer =>
        match buffer.append data with
        | .ok after => (store.set slot after, none)
        | .error fault => (store, some fault)
  | .clear slot => store[slot]?.map fun buffer => (store.set slot buffer.clear, none)
  | .setSize slot count =>
      store[slot]?.bind fun buffer =>
        if count ≤ buffer.capacity then some (store.set slot (buffer.setSize count), none) else none

def runs : Transition BufferStore BufferOperation where
  initial store := store = []
  step store operation after := ∃ thrown, store.perform operation = some (after, thrown)

/-- What every object is to satisfy. -/
def Coherent (store : BufferStore) : Prop :=
  ∀ buffer ∈ store, buffer.size = buffer.toString.length ∧ buffer.toString.length ≤ buffer.capacity

/-- What an operation that returns is to have done. -/
def Effect (store after : BufferStore) : BufferOperation → Prop
  | .ofCapacity _ _ | .ofString _ _ | .setSize _ _ => True
  | .copyConstruct source _ =>
      ∃ copy ∈ after.getLast?, ∃ other ∈ store[source]?,
        copy.size = other.size ∧ copy.toString = other.toString
  | .copyAssign target source =>
      ∃ copy ∈ after[target]?, ∃ other ∈ store[source]?,
        copy.size = other.size ∧ copy.toString = other.toString
  | .append slot data =>
      ∃ buffer ∈ store[slot]?, ∃ longer ∈ after[slot]?,
        longer.toString = buffer.toString ++ data
  | .clear slot => ∃ buffer ∈ after[slot]?, buffer.toString = []

/-- The operations that do not show the missing assignments: only an empty buffer
is cleared, and a copy already has the length it is not given, from a source
whose capacity its own strategy allows. -/
def Spared (store : BufferStore) : BufferOperation → Prop
  | .ofCapacity _ _ | .ofString _ _ | .append _ _ | .setSize _ _ => True
  | .copyConstruct source garbage => ∀ other ∈ store[source]?, garbage = other.mLength
  | .copyAssign target source =>
      target = source ∨ ∀ buffer ∈ store[target]?, ∀ other ∈ store[source]?,
        buffer.mLength = other.mLength ∧ other.mCapacity ≤ buffer.strategy.maxSize
  | .clear slot => ∀ buffer ∈ store[slot]?, buffer.mSize = 0

end BufferStore

namespace ContigBuffer

/-- The state of a buffer whose two lengths agree. -/
structure Consistent (buffer : ContigBuffer) : Prop where
  sizes : buffer.mSize = buffer.mLength
  fits : buffer.mLength ≤ buffer.mCapacity
  bounded : buffer.mCapacity ≤ buffer.strategy.maxSize

@[simp] theorem toString_length (buffer : ContigBuffer) : buffer.toString.length = buffer.mSize :=
  peek_length buffer.memory buffer.mSize

theorem Consistent.toString_eq {buffer : ContigBuffer} (consistent : buffer.Consistent) :
    buffer.toString = buffer.contents := by
  rw [toString, consistent.sizes, contents]

theorem ofCapacity_consistent {strategy : BufferMallocator} {capacity : Nat} {buffer : ContigBuffer}
    (made : ofCapacity strategy capacity = .ok buffer) : buffer.Consistent := by
  by_cases room : max capacity strategy.minSize ≤ strategy.maxSize
  · rw [ofCapacity_ok strategy capacity room] at made
    cases made
    exact ⟨rfl, Nat.zero_le _, room⟩
  · rw [ofCapacity_error strategy capacity (Nat.lt_of_not_le room)] at made
    cases made

theorem Consistent.appended {buffer : ContigBuffer} (consistent : buffer.Consistent) {data : Bytes}
    (room : ¬ buffer.Overgrows data) : (buffer.appended data).Consistent := by
  have bounded := consistent.bounded
  have within : buffer.mLength + data.length ≤ buffer.strategy.maxSize := by
    unfold Overgrows at room
    omega
  have grown := grownCapacity_bounds bounded within
  exact ⟨rfl, grown.1, grown.2.1⟩

theorem append_consistent {buffer after : ContigBuffer} {data : Bytes}
    (consistent : buffer.Consistent) (appended : buffer.append data = .ok after) :
    after.Consistent ∧ after.toString = buffer.toString ++ data := by
  obtain ⟨room, rfl⟩ := append_eq_ok.mp appended
  have after := consistent.appended room
  exact ⟨after, by rw [after.toString_eq, appended_contents, consistent.toString_eq]⟩

theorem ofString_consistent {strategy : BufferMallocator} {text : Bytes} {buffer : ContigBuffer}
    (made : ofString strategy text = .ok buffer) : buffer.Consistent := by
  obtain ⟨start, allocated, filled⟩ := exists_ok_of_bind made
  exact (append_consistent (ofCapacity_consistent allocated) filled).1

theorem copyConstruct_ok {other copy : ContigBuffer} {garbage : Nat}
    (made : other.copyConstruct garbage = .ok copy) :
    other.mCapacity ≤ other.strategy.maxSize ∧ copy.strategy = other.strategy ∧
      copy.mCapacity = other.mCapacity ∧ copy.mLength = garbage ∧ copy.mSize = other.mSize ∧
      copy.toString = other.toString := by
  by_cases big : other.mCapacity > other.strategy.maxSize
  · simp [copyConstruct, BufferMallocator.allocate, big, bind, Except.bind] at made
  · simp only [copyConstruct, BufferMallocator.allocate, if_neg big] at made
    cases made
    refine ⟨Nat.le_of_not_lt big, rfl, rfl, rfl, rfl, ?_⟩
    exact peek_peek other.memory other.mSize

theorem copyAssign_of_room {buffer other : ContigBuffer}
    (room : other.mCapacity ≤ buffer.strategy.maxSize) :
    buffer.copyAssign other = ({ buffer with
      memory := peek other.memory other.mSize
      mCapacity := other.mCapacity
      mSize := other.mSize }, none) := by
  simp only [copyAssign, BufferMallocator.allocate, if_neg (Nat.not_lt.mpr room)]
  rfl

theorem copyAssign_thrown {buffer other : ContigBuffer}
    (big : buffer.strategy.maxSize < other.mCapacity) :
    (buffer.copyAssign other).2 = some .requestedAllocationTooBig := by
  simp only [copyAssign, BufferMallocator.allocate, if_pos big]
  rfl

end ContigBuffer

namespace BufferStore

open ContigBuffer

def Consistent (store : BufferStore) : Prop :=
  ∀ buffer ∈ store, buffer.Consistent

variable {store after : BufferStore}

theorem Consistent.coherent (consistent : store.Consistent) : store.Coherent := by
  intro buffer member
  have valid := consistent buffer member
  rw [toString_length, valid.sizes]
  exact ⟨rfl, valid.fits⟩

theorem Consistent.at (consistent : store.Consistent) {slot : Nat} {buffer : ContigBuffer}
    (found : store[slot]? = some buffer) : buffer.Consistent :=
  consistent buffer (List.mem_of_getElem? found)

/-! ## The outcomes of an operation -/

inductive Performs (store : BufferStore) :
    BufferOperation → BufferStore → Option Fault → Prop where
  | refused (operation : BufferOperation) (fault : Fault) :
      Performs store operation store (some fault)
  | ofCapacity {strategy : BufferMallocator} {capacity : Nat} {buffer : ContigBuffer}
      (made : ContigBuffer.ofCapacity strategy capacity = .ok buffer) :
      Performs store (.ofCapacity strategy capacity) (store ++ [buffer]) none
  | ofString {strategy : BufferMallocator} {text : Bytes} {buffer : ContigBuffer}
      (made : ContigBuffer.ofString strategy text = .ok buffer) :
      Performs store (.ofString strategy text) (store ++ [buffer]) none
  | copyConstruct {source garbage : Nat} {other copy : ContigBuffer}
      (original : store[source]? = some other) (made : other.copyConstruct garbage = .ok copy) :
      Performs store (.copyConstruct source garbage) (store ++ [copy]) none
  | selfAssign {slot : Nat} {buffer : ContigBuffer} (found : store[slot]? = some buffer) :
      Performs store (.copyAssign slot slot) store none
  | copyAssign {target source : Nat} {buffer other : ContigBuffer} (different : target ≠ source)
      (found : store[target]? = some buffer) (original : store[source]? = some other) :
      Performs store (.copyAssign target source) (store.set target (buffer.copyAssign other).1)
        (buffer.copyAssign other).2
  | append {slot : Nat} {data : Bytes} {buffer longer : ContigBuffer}
      (found : store[slot]? = some buffer) (appended : buffer.append data = .ok longer) :
      Performs store (.append slot data) (store.set slot longer) none
  | clear {slot : Nat} {buffer : ContigBuffer} (found : store[slot]? = some buffer) :
      Performs store (.clear slot) (store.set slot buffer.clear) none
  | setSize {slot count : Nat} {buffer : ContigBuffer} (found : store[slot]? = some buffer)
      (within : count ≤ buffer.capacity) :
      Performs store (.setSize slot count) (store.set slot (buffer.setSize count)) none

variable {operation : BufferOperation} {thrown : Option Fault}

theorem Performs.made {result : Except Fault ContigBuffer}
    (fine : ∀ buffer, result = .ok buffer → Performs store operation (store ++ [buffer]) none)
    (performed : store.made result = (after, thrown)) : Performs store operation after thrown := by
  cases result with
  | error fault =>
      cases performed
      exact .refused operation fault
  | ok buffer =>
      cases performed
      exact fine buffer rfl

theorem performs_of_perform (performed : store.perform operation = some (after, thrown)) :
    Performs store operation after thrown := by
  cases operation with
  | ofCapacity strategy capacity =>
      exact .made (fun _ => .ofCapacity) (Option.some.inj performed)
  | ofString strategy text =>
      exact .made (fun _ => .ofString) (Option.some.inj performed)
  | copyConstruct source garbage =>
      obtain ⟨other, original, performed⟩ := Option.map_eq_some_iff.mp performed
      exact .made (fun _ => .copyConstruct original) performed
  | copyAssign target source =>
      obtain ⟨buffer, found, performed⟩ := Option.bind_eq_some_iff.mp performed
      obtain ⟨other, original, performed⟩ := Option.map_eq_some_iff.mp performed
      by_cases same : target = source
      · rw [if_pos same] at performed
        cases performed
        subst same
        exact .selfAssign found
      · rw [if_neg same] at performed
        cases performed
        exact .copyAssign same found original
  | append slot data =>
      obtain ⟨buffer, found, performed⟩ := Option.map_eq_some_iff.mp performed
      cases appended : buffer.append data with
      | error fault =>
          rw [appended] at performed
          cases performed
          exact .refused _ fault
      | ok longer =>
          rw [appended] at performed
          cases performed
          exact .append found appended
  | clear slot =>
      obtain ⟨buffer, found, performed⟩ := Option.map_eq_some_iff.mp performed
      cases performed
      exact .clear found
  | setSize slot count =>
      obtain ⟨buffer, found, performed⟩ := Option.bind_eq_some_iff.mp performed
      split at performed
      · next within =>
          cases performed
          exact .setSize found within
      · cases performed

/-- One operation, spared the missing assignments, keeps every buffer consistent. -/
theorem Consistent.perform (consistent : store.Consistent) (spared : store.Spared operation)
    (performs : Performs store operation after thrown) : after.Consistent := by
  cases performs with
  | refused => exact consistent
  | ofCapacity made => exact forall_mem_push consistent (ofCapacity_consistent made)
  | ofString made => exact forall_mem_push consistent (ofString_consistent made)
  | @copyConstruct source garbage other copy original made =>
      have valid := consistent.at original
      obtain ⟨_, strategy, capacity, length, size, _⟩ := copyConstruct_ok made
      have same : copy.mLength = other.mLength := length.trans (spared other original)
      refine forall_mem_push consistent ⟨?_, ?_, ?_⟩
      · rw [size, same, valid.sizes]
      · rw [same, capacity]
        exact valid.fits
      · rw [capacity, strategy]
        exact valid.bounded
  | selfAssign => exact consistent
  | copyAssign different found original =>
      obtain ⟨length, room⟩ := spared.resolve_left different _ found _ original
      have valid := consistent.at original
      rw [copyAssign_of_room room]
      refine forall_mem_set consistent _ ⟨?_, ?_, room⟩
      · rw [length]
        exact valid.sizes
      · rw [length]
        exact valid.fits
  | append found appended =>
      exact forall_mem_set consistent _ (append_consistent (consistent.at found) appended).1
  | @clear slot buffer found =>
      have valid := consistent.at found
      exact forall_mem_set consistent slot ⟨spared buffer found, Nat.zero_le _, valid.bounded⟩
  | setSize found within =>
      have valid := consistent.at found
      exact forall_mem_set consistent _ ⟨rfl, within, valid.bounded⟩

theorem reached_consistent (reached : runs.Reaches Spared store) : store.Consistent := by
  refine reached.invariant ?_ ?_
  · intro store start buffer member
    rw [start] at member
    cases member
  · intro store operation after consistent spared taken
    obtain ⟨thrown, performed⟩ := taken
    exact consistent.perform spared (performs_of_perform performed)

theorem spared_of_effect (performs : Performs store operation after thrown)
    (returned : thrown = none) (effect : Effect store after operation) : store.Spared operation := by
  cases performs with
  | refused => cases returned
  | ofCapacity => trivial
  | ofString => trivial
  | append => trivial
  | setSize => trivial
  | selfAssign => exact .inl rfl
  | @copyConstruct source garbage other copy original made =>
      obtain ⟨_, _, _, length, _, _⟩ := copyConstruct_ok made
      obtain ⟨last, isLast, again, there, size, _⟩ := effect
      obtain rfl : copy = last := by simpa using isLast
      obtain rfl := Option.mem_unique original there
      intro another here
      obtain rfl := Option.mem_unique original here
      exact length.symm.trans size
  | @copyAssign target source buffer other different found original =>
      have room : other.mCapacity ≤ buffer.strategy.maxSize := by
        by_cases big : buffer.strategy.maxSize < other.mCapacity
        · rw [copyAssign_thrown big] at returned
          cases returned
        · exact Nat.le_of_not_lt big
      obtain ⟨copy, placed, again, there, size, _⟩ := effect
      rw [copyAssign_of_room room] at placed
      obtain rfl := Option.mem_unique (getElem?_set_found found _) placed
      obtain rfl := Option.mem_unique original there
      refine .inr fun first here second also => ?_
      obtain rfl := Option.mem_unique found here
      obtain rfl := Option.mem_unique original also
      exact ⟨size, room⟩
  | @clear slot buffer found =>
      obtain ⟨cleared, placed, empty⟩ := effect
      obtain rfl := Option.mem_unique (getElem?_set_found found _) placed
      intro another here
      obtain rfl := Option.mem_unique found here
      have length := congrArg List.length empty
      rwa [toString_length] at length

theorem Consistent.effect (consistent : store.Consistent) (spared : store.Spared operation)
    (performs : Performs store operation after thrown) (returned : thrown = none) :
    Effect store after operation := by
  cases performs with
  | refused => cases returned
  | ofCapacity => trivial
  | ofString => trivial
  | setSize => trivial
  | @selfAssign slot buffer found => exact ⟨buffer, found, buffer, found, rfl, rfl⟩
  | @append slot data buffer longer found appended =>
      exact ⟨buffer, found, longer, getElem?_set_found found longer,
        (append_consistent (consistent.at found) appended).2⟩
  | @copyConstruct source garbage other copy original made =>
      obtain ⟨_, _, _, length, _, text⟩ := copyConstruct_ok made
      exact ⟨copy, by simp, other, original, length.trans (spared other original), text⟩
  | @copyAssign target source buffer other different found original =>
      obtain ⟨length, room⟩ := spared.resolve_left different _ found _ original
      rw [copyAssign_of_room room]
      exact ⟨_, getElem?_set_found found _, other, original, length,
        peek_peek other.memory other.mSize⟩
  | @clear slot buffer found =>
      refine ⟨_, getElem?_set_found found _, List.eq_nil_of_length_eq_zero ?_⟩
      rw [toString_length]
      exact spared buffer found

/-- In a run whose operations are all spared, every buffer has as many bytes as
its size, within its capacity; and an operation that returns in such a state does
what it is to do exactly when it is spared. -/
theorem spared_runs_coherent (reached : runs.Reaches Spared store) :
    store.Coherent ∧
      ∀ operation after, store.perform operation = some (after, none) →
        (after.Coherent ∧ Effect store after operation ↔ store.Spared operation) := by
  have consistent := reached_consistent reached
  refine ⟨consistent.coherent, fun operation after performed => ?_⟩
  have performs := performs_of_perform performed
  constructor
  · intro upheld
    exact spared_of_effect performs rfl upheld.2
  · intro spared
    exact ⟨(consistent.perform spared performs).coherent, consistent.effect spared performs rfl⟩

instance (store : BufferStore) : Decidable store.Coherent :=
  inferInstanceAs (Decidable (∀ buffer ∈ store, _ ∧ _))

theorem string_buffer_coherent :
    ∃ store, runs.Reaches Spared store ∧ store.length = 1 ∧ store.Coherent := by
  have start : runs.Reaches Spared [] := .initial rfl
  have made := @Transition.Reaches.step _ _ _ _ _ _
    (BufferOperation.ofString .standard (ascii "abc")) start trivial ⟨none, rfl⟩
  have longer := @Transition.Reaches.step _ _ _ _ _ _
    (BufferOperation.append 0 (ascii "de")) made trivial ⟨none, rfl⟩
  exact ⟨_, longer, rfl, (spared_runs_coherent longer).1⟩

/-- A buffer made from "abc" still has three bytes for `toString` when it has been
cleared, and none for `size`. -/
theorem cleared_buffer_not_empty :
    ∃ store after : BufferStore, runs.Reaches Transition.unguarded store ∧
      store.perform (.clear 0) = some (after, none) ∧ ¬ after.Coherent ∧
      ∃ buffer ∈ after[0]?, buffer.toString ≠ [] := by
  have start : runs.Reaches Transition.unguarded [] := .initial rfl
  have made := @Transition.Reaches.step _ _ _ _ _ _
    (BufferOperation.ofString .standard (ascii "abc")) start trivial ⟨none, rfl⟩
  exact ⟨_, _, made, rfl, by decide, _, rfl, by decide⟩

end BufferStore

end Marvin.Buffer
