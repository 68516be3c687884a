import Marvin.Buffer.BufferChain
import Marvin.Data.Heap
import Marvin.Data.Transition

namespace Marvin.Buffer

open Marvin.Data

/-! # Chains in use

Any number of `BufferChain` objects of `marvin/buffer/buffer_chain.hpp`, with
what they share: blocks are held by `shared_ptr`, and a `const_buffer` of the
asio sequence is a pointer into the slab of a block, which stays behind when the
slab is reallocated.
-/

/-- Both lengths of the buffer agree and are within its capacity. -/
def ContigBuffer.Settled (buffer : ContigBuffer) : Prop :=
  buffer.mSize = buffer.mLength ∧ buffer.mLength ≤ buffer.mCapacity

/-- A block and the number of times its slab was reallocated. -/
structure SharedBlock where
  buffer : ContigBuffer
  slab : Nat
deriving DecidableEq, Repr

abbrev BlockHeap := Heap SharedBlock

def SharedBlock.append (block : SharedBlock) (data : Bytes) : Except Fault SharedBlock := do
  let buffer ← block.buffer.append data
  return ⟨buffer, if block.buffer.mLength + data.length ≥ block.buffer.mCapacity then block.slab + 1
    else block.slab⟩

structure ConstBuffer where
  address : Nat
  slab : Nat
  size : Nat
deriving DecidableEq, Repr

/-- `const_buffer(mb->data(), mb->size())`. -/
def constBuffer (heap : BlockHeap) (address : Nat) : ConstBuffer :=
  ⟨address, (heap.cell address).slab, (heap.cell address).buffer.size⟩

/-- The bytes behind a `const_buffer`, unless its slab is gone. -/
def ConstBuffer.read (heap : BlockHeap) (entry : ConstBuffer) : Option Bytes :=
  if (heap.cell entry.address).slab = entry.slab then
    some (peek (heap.cell entry.address).buffer.memory entry.size)
  else none

structure SharedChain where
  factory : BufferMallocator
  chain : List Nat
  asioChain : List ConstBuffer
  mSize : Nat
deriving DecidableEq, Repr

namespace SharedChain

def new (factory : BufferMallocator) : SharedChain := ⟨factory, [], [], 0⟩

def pushBack (heap : BlockHeap) (chain : SharedChain) (address : Nat) : SharedChain :=
  { chain with
    mSize := chain.mSize + (heap.cell address).buffer.size
    chain := chain.chain ++ [address]
    asioChain := chain.asioChain ++ [constBuffer heap address] }

/-- Adds a block that no other chain has. -/
def pushNew (heap : BlockHeap) (chain : SharedChain) (buffer : ContigBuffer) :
    BlockHeap × SharedChain :=
  let shared := heap.make ⟨buffer, 0⟩
  (shared, chain.pushBack shared heap.next)

def appendBlock (heap : BlockHeap) (chain : SharedChain) (data : Bytes) :
    Except Fault (BlockHeap × SharedChain) := do
  let requiredLen := if data.length > 256 * 4 * 8 then data.length + 100 else 256 * 4 * 8
  let block ← ContigBuffer.ofCapacity chain.factory requiredLen
  let block ← block.append data
  return chain.pushNew heap block

/-- `m_asio_chain.back() = const_buffer(..)` and `m_size += len`. -/
def refreshLast (heap : BlockHeap) (chain : SharedChain) (last : Nat) (data : Bytes) : SharedChain :=
  { chain with
    asioChain := chain.asioChain.dropLast ++ [constBuffer heap last]
    mSize := chain.mSize + data.length }

def append (heap : BlockHeap) (chain : SharedChain) (data : Bytes) :
    Except Fault (BlockHeap × SharedChain) :=
  match chain.chain.getLast? with
  | some last =>
      let block := heap.cell last
      if block.buffer.capacity - block.buffer.size ≥ data.length then do
        let block ← block.append data
        let shared := heap.write last block
        return (shared, chain.refreshLast shared last data)
      else chain.appendBlock heap data
  | none => chain.appendBlock heap data

def clear (chain : SharedChain) : SharedChain :=
  { chain with chain := [], asioChain := [], mSize := 0 }

/-- `m_buf_factory.makeSPtr(*mb_sptr)`. -/
def copyBlock (factory : BufferMallocator) (buffer : ContigBuffer) : Except Fault ContigBuffer := do
  let copy ← ContigBuffer.ofCapacity factory buffer.capacity
  copy.append buffer.contents

/-- The loop of the copy constructor and of copy assignment; an exception leaves
the blocks that have been copied. -/
def copyBlocks (heap : BlockHeap) (chain : SharedChain) :
    List ContigBuffer → (BlockHeap × SharedChain) × Option Fault
  | [] => ((heap, chain), none)
  | buffer :: rest =>
      match copyBlock chain.factory buffer with
      | .error fault => ((heap, chain), some fault)
      | .ok copy => copyBlocks (chain.pushNew heap copy).1 (chain.pushNew heap copy).2 rest

def buffers (heap : BlockHeap) (chain : SharedChain) : List ContigBuffer :=
  chain.chain.map fun address => (heap.cell address).buffer

def toString (heap : BlockHeap) (chain : SharedChain) : Bytes :=
  ((chain.buffers heap).map ContigBuffer.toString).flatten

def asioSize (chain : SharedChain) : Nat :=
  (chain.asioChain.map ConstBuffer.size).sum

/-- `buffersequence_to_string` of `asio_buffer_sequence()`. -/
def asioBytes (heap : BlockHeap) (chain : SharedChain) : Option Bytes :=
  (chain.asioChain.mapM (ConstBuffer.read heap)).map List.flatten

/-- The three records of a chain say the same. -/
def InStep (heap : BlockHeap) (chain : SharedChain) : Prop :=
  chain.mSize = (chain.toString heap).length ∧ chain.asioSize = (chain.toString heap).length ∧
    chain.asioBytes heap = some (chain.toString heap)

end SharedChain

structure ChainStore where
  heap : BlockHeap
  chains : List SharedChain

/-- `makeBlock` stands for code outside of the chains, which may hold a buffer in
any state. -/
inductive ChainOperation where
  | makeBlock (buffer : ContigBuffer)
  | new (factory : BufferMallocator)
  | append (slot : Nat) (data : Bytes)
  | pushBack (slot address : Nat)
  | clear (slot : Nat)
  | copyConstruct (source : Nat)
  | copyAssign (target source : Nat)
  | moveConstruct (source : Nat)
  | moveAssign (target source : Nat)
deriving DecidableEq, Repr

namespace ChainStore

/-- The store after an operation and what it throws, if the objects it names are
there. -/
def perform (store : ChainStore) : ChainOperation → Option (ChainStore × Option Fault)
  | .makeBlock buffer => some ({ store with heap := store.heap.make ⟨buffer, 0⟩ }, none)
  | .new factory => some ({ store with chains := store.chains ++ [.new factory] }, none)
  | .append slot data =>
      store.chains[slot]?.map fun chain =>
        match chain.append store.heap data with
        | .ok (heap, longer) => (⟨heap, store.chains.set slot longer⟩, none)
        | .error fault => (store, some fault)
  | .pushBack slot address =>
      if address < store.heap.next then
        store.chains[slot]?.map fun chain =>
          (⟨store.heap, store.chains.set slot (chain.pushBack store.heap address)⟩, none)
      else none
  | .clear slot =>
      store.chains[slot]?.map fun chain => (⟨store.heap, store.chains.set slot chain.clear⟩, none)
  | .copyConstruct source =>
      store.chains[source]?.map fun other =>
        match (SharedChain.new other.factory).copyBlocks store.heap (other.buffers store.heap) with
        | ((heap, copy), none) => (⟨heap, store.chains ++ [copy]⟩, none)
        | ((heap, _), some fault) => ({ store with heap }, some fault)
  | .copyAssign target source =>
      store.chains[target]?.bind fun chain => store.chains[source]?.map fun other =>
        if target = source then (store, none)
        else
          let ((heap, copy), thrown) :=
            { chain with mSize := 0 }.copyBlocks store.heap (other.buffers store.heap)
          (⟨heap, store.chains.set target copy⟩, thrown)
  | .moveConstruct source =>
      store.chains[source]?.map fun other =>
        (⟨store.heap, store.chains.set source other.clear ++ [other]⟩, none)
  | .moveAssign target source =>
      store.chains[target]?.bind fun chain => store.chains[source]?.map fun other =>
        if target = source then (store, none)
        else
          let moved := { chain with chain := other.chain, mSize := other.mSize }
          let left := { other with chain := chain.chain, mSize := chain.mSize }
          (⟨store.heap, (store.chains.set target moved).set source left⟩, none)

def runs : Transition ChainStore ChainOperation where
  initial store := store.heap.next = 0 ∧ store.chains = []
  step store operation after := ∃ thrown, store.perform operation = some (after, thrown)

/-- What an operation that returns is to have done. -/
def Effect (store after : ChainStore) : ChainOperation → Prop
  | .append slot data =>
      ∃ chain ∈ store.chains[slot]?, ∃ longer ∈ after.chains[slot]?,
        longer.toString after.heap = chain.toString store.heap ++ data
  | .copyAssign target source =>
      ∃ other ∈ store.chains[source]?, ∃ copy ∈ after.chains[target]?,
        copy.toString after.heap = other.toString after.heap ∧
          other.toString after.heap = other.toString store.heap
  | _ => True

/-- The address occurs nowhere else than at the end of the chain. -/
def Unshared (store : ChainStore) (slot address : Nat) : Prop :=
  ∀ other, ∀ chain ∈ store.chains[other]?,
    address ∉ if other = slot then chain.chain.dropLast else chain.chain

/-- The operations that do not show the defects: a block that is shared is not
grown or moved in place, a chain is not copied over bytes, a move does not leave
another asio sequence behind, and the blocks that are added have one length. -/
def Spared (store : ChainStore) : ChainOperation → Prop
  | .append slot data =>
      ∀ chain ∈ store.chains[slot]?, ∀ last ∈ chain.chain.getLast?,
        data.length ≤ (store.heap.cell last).buffer.capacity - (store.heap.cell last).buffer.size →
          store.Unshared slot last ∨
            data = [] ∧ (store.heap.cell last).buffer.size < (store.heap.cell last).buffer.capacity
  | .pushBack _ address => (store.heap.cell address).buffer.Settled
  | .copyAssign target source => target = source ∨ ∀ chain ∈ store.chains[target]?, chain.mSize = 0
  | .moveAssign target source =>
      target = source ∨ ∀ chain ∈ store.chains[target]?, ∀ other ∈ store.chains[source]?,
        chain.asioChain = other.asioChain
  | .makeBlock _ | .new _ | .clear _ | .copyConstruct _ | .moveConstruct _ => True

end ChainStore

end Marvin.Buffer
