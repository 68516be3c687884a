import Marvin.Buffer.BufferHeap

namespace Marvin.Buffer

open Marvin.Data

/-! # Buffers and their slabs

Runs of the operations on buffers in one memory.  Every object has a slab of its
own, and the stores of `BufferRuns` say what the objects show.
-/

theorem reduceOption_set {α : Type} {values : List (Option α)} {slot : Nat}
    (inside : slot < values.length) (value : α) :
    (values.set slot (some value)).reduceOption.Perm
      (value :: (values.set slot none).reduceOption) := by
  induction values generalizing slot with
  | nil => cases inside
  | cons head tail ih =>
      cases slot with
      | zero =>
          rw [List.set_cons_zero, List.set_cons_zero, List.reduceOption_cons_of_some,
            List.reduceOption_cons_of_none]
      | succ slot =>
          have later := ih (Nat.lt_of_succ_lt_succ inside)
          rw [List.set_cons_succ, List.set_cons_succ]
          cases head with
          | none =>
              rw [List.reduceOption_cons_of_none, List.reduceOption_cons_of_none]
              exact later
          | some other =>
              rw [List.reduceOption_cons_of_some, List.reduceOption_cons_of_some]
              exact (later.cons other).trans (.swap value other _)

namespace BufferHeap

open ContigBuffer Machine

/-- What the objects show, and that every block is the slab of one object or leaked. -/
structure Shows (heap : BufferHeap) (store : BufferStore) : Prop where
  slots : heap.objects.length = store.length
  shown : ∀ slot object, heap.object? slot = some object →
    ∃ buffer, store[slot]? = some buffer ∧ object = buffer.objectAt object.memPtr ∧ buffer.Fits ∧
      Slab heap.memory object.memPtr buffer
  ledger : heap.memory.Ledger (heap.slabs ++ heap.leaked)

/-- The owned pointers besides that of one object. -/
def others (heap : BufferHeap) (slot : Nat) : List Nat :=
  (heap.objects.set slot none).reduceOption.map BufferObject.memPtr ++ heap.leaked

variable {allocator : Allocator} {heap : BufferHeap} {store : BufferStore} {slot : Nat}
  {object : BufferObject}

theorem object?_eq_some :
    heap.object? slot = some object ↔ heap.objects[slot]? = some (some object) := by
  rw [object?, Option.join_eq_some_iff]

theorem slot_lt (found : heap.object? slot = some object) : slot < heap.objects.length :=
  (List.getElem?_eq_some_iff.mp (object?_eq_some.mp found)).1

theorem slabs_perm (found : heap.object? slot = some object) :
    (heap.slabs ++ heap.leaked).Perm (object.memPtr :: heap.others slot) := by
  have inside := slot_lt found
  have itself : heap.objects.set slot (some object) = heap.objects := by
    obtain ⟨_, same⟩ := List.getElem?_eq_some_iff.mp (object?_eq_some.mp found)
    rw [← same, List.set_getElem_self]
  have set := (reduceOption_set inside object).map BufferObject.memPtr
  rw [itself] at set
  exact set.append_right heap.leaked

theorem memPtr_mem_others {other : BufferObject} {place : Nat}
    (found : heap.object? place = some other) (different : place ≠ slot) :
    other.memPtr ∈ heap.others slot := by
  refine List.mem_append_left _ (List.mem_map_of_mem ?_)
  rw [List.reduceOption_mem_iff]
  apply List.mem_of_getElem? (i := place)
  rw [List.getElem?_set_ne (Ne.symm different)]
  exact object?_eq_some.mp found

theorem Shows.holds (shows : heap.Shows store) (found : heap.object? slot = some object) :
    ∃ buffer, store[slot]? = some buffer ∧
      Machine.Holds ⟨heap.memory, object⟩ buffer (heap.others slot) := by
  obtain ⟨buffer, there, same, fits, slab⟩ := shows.shown slot object found
  exact ⟨buffer, there, same, fits, slab, shows.ledger.perm (slabs_perm found)⟩

theorem object?_set {place : Nat} {value : Option BufferObject} {memory : Memory} {leaked : List Nat}
    (inside : slot < heap.objects.length) :
    object? ⟨memory, heap.objects.set slot value, leaked⟩ place =
      if place = slot then value else heap.object? place := by
  by_cases here : place = slot
  · rw [if_pos here, here, object?, List.getElem?_set_self inside, Option.join_some]
  · rw [if_neg here, object?, List.getElem?_set_ne (Ne.symm here), object?]

theorem Slab.keeps {before after : Memory} {pointer : Nat} {buffer : ContigBuffer} {rest : List Nat}
    (slab : Slab before pointer buffer) (kept : Keeps before after rest) (member : pointer ∈ rest) :
    Slab after pointer buffer := by
  rw [Slab, kept pointer member]
  exact slab

/-- One object is changed, and the others are as they were. -/
theorem Shows.set (shows : heap.Shows store) (found : heap.object? slot = some object)
    {next : Machine} {after : ContigBuffer} {extra : List Nat}
    (holds : next.Holds after (extra ++ heap.others slot))
    (kept : Keeps heap.memory next.memory (heap.others slot)) :
    Shows ⟨next.memory, heap.objects.set slot (some next.object), extra ++ heap.leaked⟩
      (store.set slot after) := by
  have inside := slot_lt found
  refine ⟨by simp [shows.slots], fun place other there => ?_, ?_⟩
  · rw [object?_set inside] at there
    by_cases here : place = slot
    · rw [if_pos here, Option.some_inj] at there
      subst there here
      refine ⟨after, List.getElem?_set_self (shows.slots ▸ inside), holds.object, holds.fits,
        holds.slab⟩
    · rw [if_neg here] at there
      obtain ⟨buffer, shown, same, fits, slab⟩ := shows.shown place other there
      refine ⟨buffer, by rw [List.getElem?_set_ne (Ne.symm here)]; exact shown, same, fits, ?_⟩
      exact Slab.keeps slab kept (memPtr_mem_others there here)
  · have slabs := (reduceOption_set inside next.object).map BufferObject.memPtr
    refine holds.ledger.perm (.trans ?_ (slabs.symm.append_right (extra ++ heap.leaked)))
    refine List.Perm.cons _ ?_
    change List.Perm (extra ++ heap.others slot)
      ((heap.objects.set slot none).reduceOption.map BufferObject.memPtr ++ (extra ++ heap.leaked))
    rw [others, ← List.append_assoc, ← List.append_assoc]
    exact List.perm_append_comm.append_right heap.leaked

theorem Shows.alter (shows : heap.Shows store) (found : heap.object? slot = some object)
    (change : Machine → Option (Machine × Option Fault)) {next : Machine} {thrown : Option Fault}
    (changed : change ⟨heap.memory, object⟩ = some (next, thrown)) {after : ContigBuffer}
    (holds : next.Holds after (heap.others slot))
    (kept : Keeps heap.memory next.memory (heap.others slot)) :
    ∃ result, heap.alter slot change = some (result, thrown) ∧ result.Shows (store.set slot after) := by
  refine ⟨_, ?_, @Shows.set _ _ _ _ shows found _ _ [] holds kept⟩
  simp only [BufferHeap.alter, found, changed, bind, Option.bind]
  rfl

/-- A new object in a block of its own. -/
theorem Shows.make (shows : heap.Shows store) {next : Machine} {fresh : ContigBuffer}
    (holds : next.Holds fresh (heap.slabs ++ heap.leaked))
    (kept : Keeps heap.memory next.memory (heap.slabs ++ heap.leaked)) :
    Shows (heap.make next.memory (.ok next.object)).1 (store ++ [fresh]) := by
  refine ⟨by simp [BufferHeap.make, shows.slots], fun place other there => ?_, ?_⟩
  · simp only [BufferHeap.make, object?] at there
    rw [List.getElem?_append] at there
    split at there
    · next inside =>
        obtain ⟨buffer, shown, same, fits, slab⟩ := shows.shown place other there
        refine ⟨buffer, ?_, same, fits, Slab.keeps slab kept (List.mem_append_left _ ?_)⟩
        · rw [List.getElem?_append_left (shows.slots ▸ inside)]
          exact shown
        · refine List.mem_map_of_mem (List.reduceOption_mem_iff.mpr ?_)
          exact List.mem_of_getElem? (object?_eq_some.mp there)
    · next outside =>
        have last : place - heap.objects.length = 0 := by
          by_contra more
          rw [List.getElem?_eq_none (by simp; omega)] at there
          cases there
        rw [last] at there
        obtain rfl : next.object = other := by simpa using there
        have here : place = store.length := by
          rw [← shows.slots]
          omega
        refine ⟨fresh, by rw [here]; simp, holds.object, holds.fits, holds.slab⟩
  · have slabs : slabs (heap.make next.memory (.ok next.object)).1 =
        heap.slabs ++ [next.object.memPtr] := by
      simp [BufferHeap.make, BufferHeap.slabs, List.reduceOption_append]
    rw [slabs]
    refine holds.ledger.perm ?_
    change List.Perm _ ((heap.slabs ++ [next.object.memPtr]) ++ heap.leaked)
    rw [List.append_assoc, List.singleton_append]
    exact List.perm_middle.symm

theorem Shows.destroy (shows : heap.Shows store) (found : heap.object? slot = some object) :
    ∃ result, heap.step allocator (.destroy slot) = some (result, none) ∧ result.Shows store := by
  obtain ⟨buffer, there, holds⟩ := shows.holds found
  obtain ⟨freed, ledger, kept⟩ := holds.destroy
  refine ⟨⟨heap.memory.erase object.memPtr, heap.objects.set slot none, heap.leaked⟩, ?_, ?_, ?_,
    ledger⟩
  · simp only [BufferHeap.step, found, bind, Option.bind, freed]
    rfl
  · rw [List.length_set]
    exact shows.slots
  · intro place other shown
    rw [object?_set (slot_lt found)] at shown
    by_cases here : place = slot
    · rw [if_pos here] at shown
      cases shown
    · rw [if_neg here] at shown
      obtain ⟨shownBuffer, present, same, fits, slab⟩ := shows.shown place other shown
      exact ⟨shownBuffer, present, same, fits, Slab.keeps slab kept (memPtr_mem_others shown here)⟩

theorem Shows.copyAssign (exact : allocator.Exact) (shows : heap.Shows store) {target source : Nat}
    {into other : BufferObject} (targeted : heap.object? target = some into)
    (sourced : heap.object? source = some other) (different : target ≠ source)
    (minds : ∀ buffer ∈ store[target]?, ∀ copied ∈ store[source]?,
      copied.mCapacity ≤ buffer.strategy.maxSize ∧ copied.mSize ≤ copied.memory.length) :
    ∃ result after, heap.step allocator (.perform (.copyAssign target source)) =
        some (result, none) ∧
      store.perform (.copyAssign target source) = some (after, none) ∧ result.Shows after := by
  obtain ⟨buffer, there, same, fits, _⟩ := shows.shown target into targeted
  obtain ⟨copied, present, holds⟩ := shows.holds sourced
  obtain ⟨room, defined⟩ := minds buffer there copied present
  obtain ⟨copy, next, assigned, done, better, kept⟩ := holds.copyAssign exact defined same fits room
  have owned : (other.memPtr :: heap.others source).Perm (into.memPtr :: heap.others target) :=
    (slabs_perm sourced).symm.trans (slabs_perm targeted)
  have placed : next.Holds copy ([into.memPtr] ++ heap.others target) :=
    ⟨better.object, better.fits, better.slab, better.ledger.perm (owned.cons _)⟩
  have spared : Keeps heap.memory next.memory (heap.others target) :=
    fun pointer member => kept pointer (owned.mem_iff.mpr (List.mem_cons_of_mem _ member))
  refine ⟨_, _, ?_, ?_, shows.set targeted placed spared⟩
  · simp only [BufferHeap.step, performOn, targeted, sourced, bind, Option.bind, if_neg different,
      BufferHeap.alter, done]
    rfl
  · simp only [BufferStore.perform, there, present, Option.bind_some, Option.map_some,
      if_neg different, assigned]

/-- An operation that is used as it should be has a result, throws what it throws
without pointers, and leaves objects that show what is left there. -/
theorem Shows.step (exact : allocator.Exact) (shows : heap.Shows store) {operation : HeapOperation}
    (names : heap.Names operation) (minds : Minds store operation) {after : BufferStore}
    {thrown : Option Fault} (performed : BufferHeap.shown store operation = some (after, thrown)) :
    ∃ result, heap.step allocator operation = some (result, thrown) ∧ result.Shows after := by
  cases operation with
  | destroy slot =>
      cases performed
      obtain ⟨object, found⟩ := Option.isSome_iff_exists.mp names
      exact shows.destroy found
  | receive slot data =>
      obtain ⟨object, found⟩ := Option.isSome_iff_exists.mp names
      obtain ⟨buffer, there, holds⟩ := shows.holds found
      simp only [BufferHeap.shown, there, Option.bind_some] at performed
      split at performed
      · next inside =>
          cases performed
          obtain ⟨next, received, better, kept⟩ := holds.receive inside
          exact shows.alter found (fun machine => (machine.receive data).map (·, none))
            (by rw [received]; rfl) better kept
      · cases performed
  | perform operation =>
      simp only [BufferHeap.shown] at performed
      cases operation with
      | ofCapacity strategy capacity =>
          simp only [BufferStore.perform, Option.some_inj] at performed
          rcases ofCapacity_holds shows.ledger exact minds.1 minds.2 capacity with
            ⟨fault, refused, same⟩ | ⟨fresh, next, made, same, holds, kept, _⟩
          · rw [refused] at performed
            cases performed
            exact ⟨heap, by simp only [BufferHeap.step, performOn, same]; rfl, shows⟩
          · rw [made] at performed
            cases performed
            exact ⟨_, by simp only [BufferHeap.step, performOn, same]; rfl, shows.make holds kept⟩
      | ofString strategy text =>
          simp only [BufferStore.perform, Option.some_inj] at performed
          rcases ofString_holds shows.ledger exact minds.1 minds.2.1 minds.2.2 with
            ⟨fault, refused, same⟩ | ⟨fresh, next, made, same, holds, kept⟩
          · rw [refused] at performed
            cases performed
            refine ⟨heap, ?_, shows⟩
            simp only [BufferHeap.step, performOn, same, bind, Option.bind]
            rfl
          · rw [made] at performed
            cases performed
            refine ⟨_, ?_, shows.make holds kept⟩
            simp only [BufferHeap.step, performOn, same, bind, Option.bind]
            rfl
      | copyConstruct source garbage =>
          obtain ⟨object, found⟩ := Option.isSome_iff_exists.mp names
          obtain ⟨buffer, there, holds⟩ := shows.holds found
          obtain ⟨copy, next, made, same, better, kept⟩ :=
            holds.copyConstruct exact (minds buffer there) garbage
          simp only [BufferStore.perform, there, Option.map_some, made, Option.some_inj] at performed
          cases performed
          have owned := slabs_perm found
          refine ⟨_, ?_, shows.make ⟨better.object, better.fits, better.slab,
            better.ledger.perm (owned.symm.cons _)⟩ fun pointer member =>
              kept pointer (owned.mem_iff.mp member)⟩
          simp only [BufferHeap.step, performOn, found, bind, Option.bind, same]
          rfl
      | copyAssign target source =>
          obtain ⟨into, targeted⟩ := Option.isSome_iff_exists.mp names.1
          obtain ⟨other, sourced⟩ := Option.isSome_iff_exists.mp names.2
          by_cases same : target = source
          · obtain ⟨buffer, there, _⟩ := shows.shown target into targeted
            subst same
            simp only [BufferStore.perform, there, Option.bind_some, Option.map_some, if_true,
              Option.some_inj] at performed
            cases performed
            refine ⟨heap, ?_, shows⟩
            simp only [BufferHeap.step, performOn, targeted, bind, Option.bind, if_true]
            rfl
          · obtain ⟨result, assigned, done, stored, better⟩ := shows.copyAssign exact targeted sourced
              same (minds.resolve_left same)
            rw [stored] at performed
            cases performed
            exact ⟨result, done, better⟩
      | append slot data =>
          obtain ⟨object, found⟩ := Option.isSome_iff_exists.mp names
          obtain ⟨buffer, there, holds⟩ := shows.holds found
          rcases holds.appendTo exact minds.1 (minds.2 buffer there) with
            ⟨fault, refused, same⟩ | ⟨next, appended, same, better, kept⟩
          · simp only [BufferStore.perform, there, Option.map_some, refused, Option.some_inj]
              at performed
            cases performed
            obtain ⟨result, altered, left⟩ := shows.alter found
              (fun machine => machine.appendTo allocator data) same holds fun _ _ => rfl
            have still : store.set slot buffer = store := by
              obtain ⟨_, value⟩ := List.getElem?_eq_some_iff.mp there
              rw [← value, List.set_getElem_self]
            exact ⟨result, altered, still ▸ left⟩
          · simp only [BufferStore.perform, there, Option.map_some, appended, Option.some_inj]
              at performed
            cases performed
            exact shows.alter found (fun machine => machine.appendTo allocator data) same better kept
      | clear slot =>
          obtain ⟨object, found⟩ := Option.isSome_iff_exists.mp names
          obtain ⟨buffer, there, holds⟩ := shows.holds found
          obtain ⟨next, cleared, better, kept⟩ := holds.clear
          simp only [BufferStore.perform, there, Option.map_some, Option.some_inj] at performed
          cases performed
          exact shows.alter found (fun machine => machine.clear.map (·, none))
            (by rw [cleared]; rfl) better kept
      | setSize slot count =>
          obtain ⟨object, found⟩ := Option.isSome_iff_exists.mp names
          obtain ⟨buffer, there, holds⟩ := shows.holds found
          simp only [BufferStore.perform, there, Option.bind_some] at performed
          split at performed
          · next inside =>
              cases performed
              exact shows.alter found (fun machine => some (machine.setSize count, none)) rfl
                (holds.setSize inside) fun _ _ => rfl
          · cases performed

/-- A memory together with what its objects are to show. -/
structure Traced where
  heap : BufferHeap
  store : BufferStore
deriving DecidableEq

/-- Operations on objects that exist.  Whether they have a result, and throw what they
should, is left open. -/
def runs (allocator : Allocator) : Transition Traced HeapOperation where
  initial traced := traced = ⟨⟨∅, [], []⟩, []⟩
  step traced operation next := traced.heap.Names operation ∧
    (∃ thrown, BufferHeap.shown traced.store operation = some (next.store, thrown)) ∧
    ∃ thrown, traced.heap.step allocator operation = some (next.heap, thrown)

theorem reaches_shows (exact : allocator.Exact) {traced : Traced}
    (reached : (runs allocator).Reaches (fun traced => Minds traced.store) traced) :
    traced.heap.Shows traced.store := by
  refine @Transition.Reaches.invariant _ _ _ _ (fun traced => traced.heap.Shows traced.store) ?_ ?_ _
    reached
  · intro state start
    obtain rfl : state = ⟨⟨∅, [], []⟩, []⟩ := start
    refine ⟨rfl, fun slot object found => ?_, Memory.Ledger.empty⟩
    cases found
  · intro state operation next shows minds taken
    obtain ⟨names, ⟨thrown, performed⟩, _, stepped⟩ := taken
    obtain ⟨result, done, better⟩ := shows.step exact names minds performed
    obtain ⟨rfl, _⟩ := Prod.mk.inj (Option.some_inj.mp (done.symm.trans stepped))
    exact better

/-- In every run of operations that mind what was written, whatever the allocator
does, no operation reads or writes outside of its slab or frees one twice, each throws
exactly what the buffers without pointers throw and `toString` returns what theirs
does.  The blocks that exist are the slabs of the objects, all different, and those
that a copy assignment dropped. -/
theorem buffers_keep_to_their_slabs (exact : allocator.Exact) {traced : Traced}
    (reached : (runs allocator).Reaches (fun traced => Minds traced.store) traced) :
    (traced.heap.slabs ++ traced.heap.leaked).Nodup ∧
      (∀ pointer, pointer ∈ traced.heap.memory ↔
        pointer ∈ traced.heap.slabs ++ traced.heap.leaked) ∧
      (∀ slot object, traced.heap.object? slot = some object →
        ∃ buffer, traced.store[slot]? = some buffer ∧ object = buffer.objectAt object.memPtr ∧
          traced.heap.memory.HasRoom object.memPtr object.mCapacity ∧
          (buffer.mSize ≤ buffer.memory.length →
            traced.heap.memory.read object.cPtr object.mSize = some buffer.toString)) ∧
      ∀ operation after thrown, traced.heap.Names operation → Minds traced.store operation →
        BufferHeap.shown traced.store operation = some (after, thrown) →
        ∃ result, traced.heap.step allocator operation = some (result, thrown) := by
  have shows := reaches_shows exact reached
  refine ⟨shows.ledger.distinct, shows.ledger.blocks, fun slot object found => ?_, ?_⟩
  · obtain ⟨buffer, there, same, fits, bytes, lookup, room, begins⟩ :=
      shows.shown slot object found
    have capacity : object.mCapacity = buffer.mCapacity := congrArg BufferObject.mCapacity same
    refine ⟨buffer, there, same, .inr ⟨bytes, lookup, capacity ▸ room⟩, fun defined => ?_⟩
    have pointers : object.cPtr = object.memPtr := congrArg BufferObject.cPtr same
    have size : object.mSize = buffer.mSize := congrArg BufferObject.mSize same
    rw [pointers, size, Memory.read_of_lookup lookup (fits.sized.trans room)]
    obtain ⟨tail, rfl⟩ := begins
    rw [ContigBuffer.toString, peek, Nat.sub_eq_zero_of_le defined, List.replicate_zero,
      List.append_nil, List.take_append_of_le_length defined]
  · intro operation after thrown names minds performed
    obtain ⟨result, done, _⟩ := shows.step exact names minds performed
    exact ⟨result, done⟩

theorem reaches_perform {traced : Traced}
    (reached : (runs allocator).Reaches (fun traced => Minds traced.store) traced)
    {operation : HeapOperation} (minds : Minds traced.store operation)
    (names : traced.heap.Names operation) {result : BufferHeap} {after : BufferStore}
    {thrown fault : Option Fault}
    (performed : BufferHeap.shown traced.store operation = some (after, thrown))
    (stepped : traced.heap.step allocator operation = some (result, fault)) :
    (runs allocator).Reaches (fun traced => Minds traced.store) ⟨result, after⟩ :=
  .step reached minds ⟨names, ⟨thrown, performed⟩, fault, stepped⟩

/-- A buffer is assigned to another one and destroyed, and the slab that the other one
had is left over. -/
theorem assigned_buffer_keeps_to_its_slab :
    ∃ traced : Traced, traced.heap.slabs.length = 1 ∧ traced.heap.leaked.length = 1 ∧
      ∀ pointer, pointer ∈ traced.heap.memory ↔
        pointer ∈ traced.heap.slabs ++ traced.heap.leaked := by
  have start : (runs .moving).Reaches (fun traced => Minds traced.store) ⟨⟨∅, [], []⟩, []⟩ :=
    .initial rfl
  have filled := @reaches_perform _ _ start (.perform (.ofString ⟨1, 8⟩ (ascii "ab")))
    ⟨by decide, by decide, by decide⟩ trivial _ _ _ _ rfl rfl
  have second := @reaches_perform _ _ filled (.perform (.ofCapacity ⟨1, 8⟩ 1))
    ⟨by decide, by decide⟩ trivial _ _ _ _ rfl rfl
  have copied := @reaches_perform _ _ second (.perform (.copyAssign 1 0)) (.inr (by decide))
    ⟨rfl, rfl⟩ _ _ _ _ rfl rfl
  have reached := @reaches_perform _ _ copied (.destroy 0) trivial rfl _ _ _ _ rfl rfl
  exact ⟨_, rfl, rfl, (buffers_keep_to_their_slabs Allocator.moving_exact reached).2.1⟩

end BufferHeap

end Marvin.Buffer
