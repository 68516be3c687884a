import Marvin.Data.Memory

namespace Marvin.Data

/-! Memory whose blocks all have an owner.

A ledger lists the pointers that the program still has to give back.  It is kept
by `malloc`, `realloc` of one of them, writing into a block and `free`; a pointer
is freed once because it is struck off.
-/

/-- What the standard promises besides `Allocator.resized`: a block of some bytes is
not at the null pointer, the old block is gone when it is moved, and no other block
comes or goes. -/
structure Allocator.Exact (allocator : Allocator) : Prop where
  nonnull (memory : Memory) (pointer : Nat) {size : Nat} : 0 < size →
    (allocator.realloc memory pointer size).2 ≠ 0
  frees {memory : Memory} {pointer size : Nat} : memory.HasRoom pointer 0 →
    (allocator.realloc memory pointer size).2 ≠ pointer →
    (allocator.realloc memory pointer size).1.lookup pointer = none
  others {memory : Memory} {pointer size other : Nat} : memory.HasRoom pointer 0 →
    other ≠ pointer → other ≠ (allocator.realloc memory pointer size).2 →
    (allocator.realloc memory pointer size).1.lookup other = memory.lookup other

namespace Memory

/-- The first bytes of a block.  No result is a read outside of it. -/
def read (memory : Memory) (pointer count : Nat) : Option Bytes :=
  if count = 0 then some []
  else
    match memory.lookup pointer with
    | none => none
    | some bytes => if count ≤ bytes.length then some (bytes.take count) else none

/-- C's `free`.  No result: the pointer is not that of a block. -/
def release (memory : Memory) (pointer : Nat) : Option Memory :=
  if pointer ∈ memory then some (memory.erase pointer) else none

variable {memory after : Memory} {pointer size offset count : Nat} {bytes data : Bytes}

theorem mem_iff_lookup : pointer ∈ memory ↔ memory.lookup pointer ≠ none := by
  rw [Ne, Finmap.lookup_eq_none, not_not]

theorem read_of_lookup (found : memory.lookup pointer = some bytes) (short : count ≤ bytes.length) :
    memory.read pointer count = some (bytes.take count) := by
  by_cases none : count = 0
  · rw [read, if_pos none, none, List.take_zero]
  · simp only [read, if_neg none, found, if_pos short]

/-- A copy within a block puts the data in the place of as many bytes. -/
theorem memcpy_of_lookup (found : memory.lookup pointer = some bytes)
    (inside : offset + data.length ≤ bytes.length) :
    ∃ after, memory.memcpy pointer offset data = some after ∧
      after.lookup pointer =
        some (bytes.take offset ++ data ++ bytes.drop (offset + data.length)) ∧
      ∀ other, other ≠ pointer → after.lookup other = memory.lookup other := by
  by_cases none : data = []
  · refine ⟨memory, if_pos none, ?_, fun _ _ => rfl⟩
    rw [found, none, List.append_nil, List.length_nil, Nat.add_zero, List.take_append_drop]
  · refine ⟨memory.insert pointer _, ?_, Finmap.lookup_insert memory, fun other different =>
      Finmap.lookup_insert_of_ne memory different⟩
    simp only [memcpy, if_neg none, found, if_pos inside]

/-- The blocks that exist are those of the owned pointers. -/
structure Ledger (memory : Memory) (owned : List Nat) : Prop where
  distinct : owned.Nodup
  blocks (pointer : Nat) : pointer ∈ memory ↔ pointer ∈ owned
  nonnull : 0 ∉ owned

namespace Ledger

variable {owned : List Nat}

theorem empty : Ledger ∅ [] :=
  ⟨List.nodup_nil, fun _ => iff_of_false Finmap.notMem_empty List.not_mem_nil, List.not_mem_nil⟩

theorem perm (ledger : Ledger memory owned) {other : List Nat} (same : owned.Perm other) :
    Ledger memory other :=
  ⟨same.nodup ledger.distinct, fun pointer => (ledger.blocks pointer).trans same.mem_iff,
    fun member => ledger.nonnull (same.mem_iff.mpr member)⟩

theorem lookup (ledger : Ledger memory owned) (member : pointer ∈ owned) :
    ∃ bytes, memory.lookup pointer = some bytes :=
  Option.ne_none_iff_exists'.mp (mem_iff_lookup.mp ((ledger.blocks pointer).mpr member))

/-- Writing into blocks changes nothing in the ledger. -/
theorem same (ledger : Ledger memory owned)
    (kept : ∀ pointer, pointer ∈ after ↔ pointer ∈ memory) : Ledger after owned :=
  ⟨ledger.distinct, fun pointer => (kept pointer).trans (ledger.blocks pointer), ledger.nonnull⟩

theorem memcpy (ledger : Ledger memory owned) (found : memory.lookup pointer = some bytes)
    (written : after.lookup pointer = some data)
    (others : ∀ other, other ≠ pointer → after.lookup other = memory.lookup other) :
    Ledger after owned := by
  refine ledger.same fun other => ?_
  by_cases here : other = pointer
  · rw [here, mem_iff_lookup, mem_iff_lookup, written, found]
    simp
  · rw [mem_iff_lookup, mem_iff_lookup, others other here]

variable {allocator : Allocator}

/-- A new block is one that nothing owned before. -/
theorem malloc (ledger : Ledger memory owned) (exact : allocator.Exact) (some : 0 < size) :
    (allocator.malloc memory size).2 ∉ owned ∧
      Ledger (allocator.malloc memory size).1 ((allocator.malloc memory size).2 :: owned) := by
  have valid : memory.HasRoom 0 0 := .inl ⟨rfl, rfl⟩
  have nonnull := exact.nonnull memory 0 some
  have resized := allocator.resized memory 0 size valid
  have fresh : (allocator.malloc memory size).2 ∉ owned := by
    intro member
    exact mem_iff_lookup.mp ((ledger.blocks _).mpr member) (resized.unused nonnull)
  refine ⟨fresh, List.nodup_cons.mpr ⟨fresh, ledger.distinct⟩, fun other => ?_, ?_⟩
  · rw [List.mem_cons]
    by_cases here : other = (allocator.malloc memory size).2
    · refine iff_of_true ?_ (.inl here)
      rcases resized.room with ⟨null, _⟩ | ⟨bytes, found, _⟩
      · exact absurd null nonnull
      · rw [here, mem_iff_lookup]
        exact Option.ne_none_iff_exists'.mpr ⟨bytes, found⟩
    · rw [or_iff_right here, mem_iff_lookup]
      by_cases null : other = 0
      · rw [null]
        exact iff_of_false (not_not.mpr (exact.frees valid nonnull)) ledger.nonnull
      · rw [show (allocator.malloc memory size).1.lookup other = memory.lookup other from
          exact.others valid null here, ← mem_iff_lookup]
        exact ledger.blocks other
  · rw [List.mem_cons, not_or]
    exact ⟨Ne.symm nonnull, ledger.nonnull⟩

/-- An owned block that is resized is owned at its new place. -/
theorem realloc (ledger : Ledger memory (pointer :: owned)) (exact : allocator.Exact)
    (some : 0 < size) :
    Ledger (allocator.realloc memory pointer size).1
      ((allocator.realloc memory pointer size).2 :: owned) := by
  obtain ⟨bytes, found⟩ := ledger.lookup List.mem_cons_self
  have valid : memory.HasRoom pointer 0 := .inr ⟨bytes, found, Nat.zero_le _⟩
  have nonnull := exact.nonnull memory pointer some
  have resized := allocator.resized memory pointer size valid
  have alone := List.nodup_cons.mp ledger.distinct
  have fresh : (allocator.realloc memory pointer size).2 ∉ owned := by
    intro member
    by_cases moved : (allocator.realloc memory pointer size).2 = pointer
    · exact alone.1 (moved ▸ member)
    · exact mem_iff_lookup.mp ((ledger.blocks _).mpr (List.mem_cons_of_mem _ member))
        (resized.unused moved)
  refine ⟨List.nodup_cons.mpr ⟨fresh, alone.2⟩, fun other => ?_, ?_⟩
  · rw [List.mem_cons]
    by_cases here : other = (allocator.realloc memory pointer size).2
    · refine iff_of_true ?_ (.inl here)
      rcases resized.room with ⟨null, _⟩ | ⟨bytes, found, _⟩
      · exact absurd null nonnull
      · rw [here, mem_iff_lookup]
        exact Option.ne_none_iff_exists'.mpr ⟨bytes, found⟩
    · rw [or_iff_right here, mem_iff_lookup]
      by_cases old : other = pointer
      · rw [old]
        exact iff_of_false (not_not.mpr (exact.frees valid fun same => here (old.trans same.symm)))
          alone.1
      · rw [exact.others valid old here, ← mem_iff_lookup, ledger.blocks other, List.mem_cons,
          or_iff_right old]
  · rw [List.mem_cons, not_or]
    exact ⟨Ne.symm nonnull, fun member => ledger.nonnull (List.mem_cons_of_mem _ member)⟩

/-- An owned block can be freed, and is struck off. -/
theorem release (ledger : Ledger memory (pointer :: owned)) :
    memory.release pointer = some (memory.erase pointer) ∧ Ledger (memory.erase pointer) owned := by
  have alone := List.nodup_cons.mp ledger.distinct
  refine ⟨if_pos ((ledger.blocks pointer).mpr List.mem_cons_self), alone.2, fun other => ?_,
    fun member => ledger.nonnull (List.mem_cons_of_mem _ member)⟩
  rw [Finmap.mem_erase, ledger.blocks other, List.mem_cons]
  by_cases here : other = pointer
  · rw [here]
    exact iff_of_false (fun both => both.1 rfl) alone.1
  · simp [here]

end Ledger

end Memory

theorem Allocator.moving_exact : Allocator.moving.Exact where
  nonnull memory pointer size _ := Nat.succ_ne_zero _
  frees := by
    intro memory pointer size _ moved
    have apart : pointer ≠ memory.free := Ne.symm moved
    change Finmap.lookup pointer ((memory.erase pointer).insert memory.free _) = none
    rw [Finmap.lookup_insert_of_ne _ apart, Finmap.lookup_erase]
  others := by
    intro memory pointer size other _ different moved
    have apart : other ≠ memory.free := moved
    change Finmap.lookup other ((memory.erase pointer).insert memory.free _) = _
    rw [Finmap.lookup_insert_of_ne _ apart, Finmap.lookup_erase_ne different]

end Marvin.Data
