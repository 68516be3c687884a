import Marvin.Buffer.ChainStore

namespace Marvin.Buffer

open Marvin.Data

/-! # Runs of chains

What a chain keeps while it is the only one that grows its last block.  A kept
chain has a `BufferChain` as its view, and its appends are those of the view.
-/

namespace ContigBuffer

theorem appended_settled (buffer : ContigBuffer) (data : Bytes) : (buffer.appended data).Settled :=
  ⟨rfl, length_le_grownCapacity buffer data⟩

theorem append_settled {buffer after : ContigBuffer} {data : Bytes}
    (appended : buffer.append data = .ok after) : after.Settled := by
  rw [(append_eq_ok.mp appended).2]
  exact appended_settled buffer data

end ContigBuffer

/-- A block that reads the same in both heaps. -/
structure Agrees (heap after : BlockHeap) (address : Nat) : Prop where
  slab : (after.cell address).slab = (heap.cell address).slab
  contents : (after.cell address).buffer.contents = (heap.cell address).buffer.contents
  settled : (after.cell address).buffer.Settled

theorem Agrees.of_eq {heap after : BlockHeap} {address : Nat}
    (same : after.cell address = heap.cell address)
    (settled : (heap.cell address).buffer.Settled) : Agrees heap after address :=
  ⟨by rw [same], by rw [same], by rwa [same]⟩

theorem Agrees.constBuffer_eq {heap after : BlockHeap} {address : Nat}
    (agrees : Agrees heap after address) : constBuffer after address = constBuffer heap address := by
  have size : (after.cell address).buffer.size = (heap.cell address).buffer.size := by
    rw [ContigBuffer.size_of_contents agrees.contents, ContigBuffer.contents_length]
  rw [constBuffer, agrees.slab, size, constBuffer]

theorem read_constBuffer (heap : BlockHeap) (address : Nat) :
    (constBuffer heap address).read heap = some (heap.cell address).buffer.contents := by
  rw [ConstBuffer.read, constBuffer, if_pos rfl]
  rfl

namespace SharedChain

variable {heap after : BlockHeap} {chain : SharedChain}

/-- The chain with its blocks in place of their addresses. -/
def view (heap : BlockHeap) (chain : SharedChain) : BufferChain :=
  ⟨chain.factory, chain.buffers heap, (chain.buffers heap).map ContigBuffer.contents, chain.mSize⟩

theorem view_toString (heap : BlockHeap) (chain : SharedChain) :
    (chain.view heap).toString = chain.toString heap := rfl

structure Kept (heap : BlockHeap) (chain : SharedChain) : Prop where
  known : ∀ address ∈ chain.chain, address < heap.next
  settled : ∀ address ∈ chain.chain, (heap.cell address).buffer.Settled
  asio : chain.asioChain = chain.chain.map (constBuffer heap)
  size : chain.mSize = (chain.view heap).bytes.length

theorem Kept.view_tallied (kept : Kept heap chain) : (chain.view heap).Tallied :=
  ⟨rfl, kept.size⟩

theorem Kept.view_level (kept : Kept heap chain) : (chain.view heap).Level := by
  intro buffer member
  obtain ⟨address, inside, rfl⟩ := List.mem_map.mp member
  exact (kept.settled address inside).1

theorem Kept.toString_eq (kept : Kept heap chain) :
    chain.toString heap = (chain.view heap).bytes := by
  rw [← view_toString, kept.view_level.toString_eq]

theorem asioBytes_of_entries {addresses : List Nat} :
    ((addresses.map (constBuffer heap)).mapM (ConstBuffer.read heap)) =
      some (addresses.map fun address => (heap.cell address).buffer.contents) := by
  induction addresses with
  | nil => rfl
  | cons address rest ih => simp [ih, read_constBuffer]

theorem Kept.inStep (kept : Kept heap chain) : chain.InStep heap := by
  have bytes : (chain.view heap).bytes =
      (chain.chain.map fun address => (heap.cell address).buffer.contents).flatten := by
    simp [BufferChain.bytes, view, buffers, Function.comp_def]
  refine ⟨by rw [kept.toString_eq]; exact kept.size, ?_, ?_⟩
  · rw [kept.toString_eq, bytes, asioSize, kept.asio, List.length_flatten]
    simp [Function.comp_def, constBuffer]
  · rw [asioBytes, kept.asio, asioBytes_of_entries, kept.toString_eq, bytes]
    rfl

theorem new_kept (heap : BlockHeap) (factory : BufferMallocator) : Kept heap (new factory) :=
  ⟨nofun, nofun, rfl, rfl⟩

theorem clear_kept (heap : BlockHeap) (chain : SharedChain) : Kept heap chain.clear :=
  ⟨nofun, nofun, rfl, rfl⟩

/-- Frame: a chain whose blocks read the same is kept, with its text. -/
theorem Kept.frame (kept : Kept heap chain) (next : heap.next ≤ after.next)
    (agree : ∀ address ∈ chain.chain, Agrees heap after address) :
    Kept after chain ∧ chain.toString after = chain.toString heap := by
  have same : (chain.view after).bytes = (chain.view heap).bytes := by
    simp only [BufferChain.bytes, view, buffers, List.map_map]
    congr 1
    apply List.map_congr_left
    intro address member
    exact (agree address member).contents
  have moved : Kept after chain := by
    refine ⟨fun address member => Nat.lt_of_lt_of_le (kept.known address member) next,
      fun address member => (agree address member).settled, ?_, by rw [same]; exact kept.size⟩
    rw [kept.asio]
    apply List.map_congr_left
    intro address member
    exact (agree address member).constBuffer_eq.symm
  exact ⟨moved, by rw [moved.toString_eq, same, kept.toString_eq]⟩

theorem Kept.extend (kept : Kept heap chain) (extended : heap.Extends after) :
    Kept after chain ∧ chain.toString after = chain.toString heap := by
  refine kept.frame extended.next fun address member => ?_
  exact .of_eq (extended.cell (kept.known address member)) (kept.settled address member)

theorem view_pushBack (heap : BlockHeap) (chain : SharedChain) (address : Nat) :
    (chain.pushBack heap address).view heap =
      (chain.view heap).pushBack (heap.cell address).buffer := by
  simp [view, pushBack, buffers, BufferChain.pushBack]

theorem Kept.pushBack (kept : Kept heap chain) {address : Nat} (known : address < heap.next)
    (settled : (heap.cell address).buffer.Settled) : Kept heap (chain.pushBack heap address) := by
  have member {other : Nat} (inside : other ∈ chain.chain ++ [address]) :
      other ∈ chain.chain ∨ other = address := by simpa using inside
  refine ⟨fun other inside => ?_, fun other inside => ?_, ?_, ?_⟩
  · rcases member inside with old | rfl
    · exact kept.known other old
    · exact known
  · rcases member inside with old | rfl
    · exact kept.settled other old
    · exact settled
  · simp [SharedChain.pushBack, kept.asio]
  · rw [view_pushBack]
    exact (kept.view_tallied.pushBack _).size

theorem Kept.pushNew (kept : Kept heap chain) {buffer : ContigBuffer} (settled : buffer.Settled) :
    Kept (chain.pushNew heap buffer).1 (chain.pushNew heap buffer).2 ∧
      (chain.pushNew heap buffer).2.toString (chain.pushNew heap buffer).1 =
        chain.toString heap ++ buffer.contents := by
  obtain ⟨moved, text⟩ := kept.extend (heap.extends_make ⟨buffer, 0⟩)
  have longer : Kept (heap.make ⟨buffer, 0⟩) (chain.pushBack (heap.make ⟨buffer, 0⟩) heap.next) :=
    moved.pushBack (Nat.lt_succ_self _) (by rwa [Heap.make_cell_next])
  refine ⟨longer, ?_⟩
  change SharedChain.toString (heap.make ⟨buffer, 0⟩)
    (chain.pushBack (heap.make ⟨buffer, 0⟩) heap.next) = _
  rw [longer.toString_eq, view_pushBack, BufferChain.bytes_pushBack, Heap.make_cell_next,
    ← moved.toString_eq, text]

/-! ## Appending -/

/-- The last block is grown where it is. -/
def InPlace (heap : BlockHeap) (chain : SharedChain) (data : Bytes) (last : Nat) : Prop :=
  chain.chain.getLast? = some last ∧
    data.length ≤ (heap.cell last).buffer.capacity - (heap.cell last).buffer.size

/-- Nothing is written and nothing is moved. -/
def Idle (heap : BlockHeap) (data : Bytes) (last : Nat) : Prop :=
  data = [] ∧ (heap.cell last).buffer.size < (heap.cell last).buffer.capacity

theorem appendBlock_ok {data : Bytes} {longer : SharedChain}
    (appended : chain.appendBlock heap data = .ok (after, longer)) :
    ∃ filled : ContigBuffer, filled.Settled ∧ filled.contents = data ∧
      chain.pushNew heap filled = (after, longer) := by
  obtain ⟨block, allocated, filling⟩ := exists_ok_of_bind appended
  obtain ⟨filled, stored, pushed⟩ := exists_ok_of_bind filling
  exact ⟨filled, ContigBuffer.append_settled stored,
    ContigBuffer.filled_contents allocated stored, Except.ok.inj pushed⟩

/-- An append either adds a block of its own or grows the last one. -/
theorem append_cases {data : Bytes} {longer : SharedChain}
    (appended : chain.append heap data = .ok (after, longer)) :
    (∃ filled : ContigBuffer, filled.Settled ∧ filled.contents = data ∧
      chain.pushNew heap filled = (after, longer)) ∨
    ∃ last block, chain.InPlace heap data last ∧ (heap.cell last).append data = .ok block ∧
      after = heap.write last block ∧ longer = chain.refreshLast after last data := by
  unfold append at appended
  split at appended
  · next last found =>
      dsimp only at appended
      split at appended
      · next roomy =>
          obtain ⟨block, grown, written⟩ := exists_ok_of_bind appended
          cases written
          exact .inr ⟨last, block, ⟨found, roomy⟩, grown, rfl, rfl⟩
      · exact .inl (appendBlock_ok appended)
  · exact .inl (appendBlock_ok appended)

theorem sharedBlock_append {block grown : SharedBlock} {data : Bytes}
    (appended : block.append data = .ok grown) :
    block.buffer.append data = .ok grown.buffer ∧
      (block.buffer.size + data.length < block.buffer.capacity → grown.slab = block.slab) := by
  obtain ⟨buffer, stored, rest⟩ := exists_ok_of_bind appended
  cases rest
  exact ⟨stored, fun room => if_neg (Nat.not_le.mpr room)⟩

theorem Idle.agrees {data : Bytes} {last : Nat} {block : SharedBlock} (idle : Idle heap data last)
    (grown : (heap.cell last).append data = .ok block) :
    Agrees heap (heap.write last block) last := by
  obtain ⟨rfl, room⟩ := idle
  obtain ⟨stored, slab⟩ := sharedBlock_append grown
  refine ⟨?_, ?_, ?_⟩
  · rw [Heap.write_cell_self, slab room]
  · rw [Heap.write_cell_self, ContigBuffer.append_contents stored, List.append_nil]
  · rw [Heap.write_cell_self]
    exact ContigBuffer.append_settled stored

/-- The blocks of other chains read the same after an append, unless the grown
one is among them. -/
theorem append_frame {data : Bytes} {longer : SharedChain}
    (appended : chain.append heap data = .ok (after, longer)) :
    heap.next ≤ after.next ∧
      ∀ address, address < heap.next → (heap.cell address).buffer.Settled →
        (∀ last, chain.InPlace heap data last → address ≠ last ∨ Idle heap data last) →
        Agrees heap after address := by
  rcases append_cases appended with ⟨filled, _, _, pushed⟩ | ⟨last, block, place, grown, rfl, _⟩
  · obtain rfl := congrArg Prod.fst pushed
    refine ⟨Nat.le_succ _, fun address known settled _ => ?_⟩
    exact .of_eq (Heap.make_cell_of_lt known _) settled
  · refine ⟨Nat.le_refl _, fun address _ settled alone => ?_⟩
    by_cases same : address = last
    · subst same
      exact ((alone address place).resolve_left (fun different => different rfl)).agrees grown
    · exact .of_eq (heap.write_cell_ne same block) settled

theorem getLast_split {last : Nat} (found : chain.chain.getLast? = some last) :
    chain.chain.dropLast ++ [last] = chain.chain :=
  List.dropLast_append_getLast? last found

theorem Kept.append_idle (kept : Kept heap chain) {data : Bytes} {last : Nat} {block : SharedBlock}
    (found : chain.chain.getLast? = some last) (idle : Idle heap data last)
    (grown : (heap.cell last).append data = .ok block) :
    chain.refreshLast (heap.write last block) last data = chain := by
  have entries : chain.asioChain.dropLast ++ [constBuffer (heap.write last block) last] =
      chain.asioChain := by
    rw [(idle.agrees grown).constBuffer_eq, kept.asio, ← List.map_dropLast, ← List.map_singleton,
      ← List.map_append, getLast_split found]
  rw [refreshLast, entries, idle.1]
  rfl

/-- Growing a block that the chain holds once is an append to the view. -/
theorem view_append_inPlace {data : Bytes} {last : Nat} {block : SharedBlock}
    (place : chain.InPlace heap data last) (once : last ∉ chain.chain.dropLast)
    (grown : (heap.cell last).append data = .ok block) :
    (chain.view heap).append data =
      .ok ((chain.refreshLast (heap.write last block) last data).view (heap.write last block)) := by
  obtain ⟨found, roomy⟩ := place
  have front : chain.chain.dropLast.map (fun address => ((heap.write last block).cell address).buffer) =
      (chain.buffers heap).dropLast := by
    rw [buffers, ← List.map_dropLast]
    apply List.map_congr_left
    intro address member
    rw [heap.write_cell_ne (fun same : address = last => once (same ▸ member))]
  have blocks : (chain.refreshLast (heap.write last block) last data).buffers
      (heap.write last block) = (chain.buffers heap).dropLast ++ [block.buffer] := by
    change chain.chain.map _ = _
    conv_lhs => rw [← getLast_split found]
    rw [List.map_append, front]
    simp
  have isLast : (chain.view heap).chain.getLast? = some (heap.cell last).buffer := by
    simp [view, buffers, found]
  have stored := (sharedBlock_append grown).1
  rw [BufferChain.append, isLast]
  simp only [ge_iff_le, if_pos roomy, stored, bind, Except.bind, pure, Except.pure, view, blocks]
  simp [List.map_dropLast, refreshLast]

theorem Kept.refreshed (kept : Kept heap chain) {last : Nat}
    (found : chain.chain.getLast? = some last) (once : last ∉ chain.chain.dropLast)
    (block : SharedBlock) :
    chain.asioChain.dropLast ++ [constBuffer (heap.write last block) last] =
      chain.chain.map (constBuffer (heap.write last block)) := by
  have front : chain.chain.dropLast.map (constBuffer (heap.write last block)) =
      chain.asioChain.dropLast := by
    rw [kept.asio, ← List.map_dropLast]
    apply List.map_congr_left
    intro address member
    rw [constBuffer, heap.write_cell_ne (fun same : address = last => once (same ▸ member)),
      constBuffer]
  conv_rhs => rw [← getLast_split found]
  rw [List.map_append, front]
  rfl

/-- A chain that holds its last block once, or does not change it, is kept by an
append and gets the data at its end. -/
theorem Kept.append (kept : Kept heap chain) {data : Bytes} {longer : SharedChain}
    (alone : ∀ last, chain.InPlace heap data last →
      last ∉ chain.chain.dropLast ∨ Idle heap data last)
    (appended : chain.append heap data = .ok (after, longer)) :
    Kept after longer ∧ longer.toString after = chain.toString heap ++ data := by
  obtain ⟨next, agree⟩ := append_frame appended
  rcases append_cases appended with ⟨filled, settled, text, pushed⟩ |
    ⟨last, block, place, grown, rfl, rfl⟩
  · have pushedNew := kept.pushNew settled
    rw [pushed, text] at pushedNew
    exact pushedNew
  · have found := place.1
    rcases alone last place with once | idle
    · have simulated := view_append_inPlace place once grown
      obtain ⟨tallied, text⟩ := BufferChain.append_tallied kept.view_tallied simulated
      have settled := ContigBuffer.append_settled (sharedBlock_append grown).1
      have longer : Kept (heap.write last block)
          (chain.refreshLast (heap.write last block) last data) := by
        refine ⟨kept.known, fun address member => ?_, ?_, tallied.size⟩
        · by_cases same : address = last
          · rw [same, Heap.write_cell_self]
            exact settled
          · rw [heap.write_cell_ne same]
            exact kept.settled address member
        · exact kept.refreshed found once block
      exact ⟨longer, by rw [longer.toString_eq, text, kept.toString_eq]⟩
    · rw [kept.append_idle found idle grown]
      obtain ⟨moved, text⟩ := kept.frame next fun address member =>
        agree address (kept.known address member) (kept.settled address member) fun other here => by
          obtain rfl : last = other := Option.some.inj (found.symm.trans here.1)
          exact .inr idle
      exact ⟨moved, by rw [text, idle.1, List.append_nil]⟩

/-! ## Copying -/

theorem copyBlock_ok {factory : BufferMallocator} {buffer copy : ContigBuffer}
    (copied : copyBlock factory buffer = .ok copy) :
    copy.Settled ∧ copy.contents = buffer.contents := by
  obtain ⟨block, allocated, filled⟩ := exists_ok_of_bind copied
  exact ⟨ContigBuffer.append_settled filled, ContigBuffer.filled_contents allocated filled⟩

/-- Copied blocks come after those that are there, as far as the loop gets. -/
theorem Kept.copyBlocks (kept : Kept heap chain) {buffers : List ContigBuffer}
    {copy : SharedChain} {thrown : Option Fault}
    (copied : chain.copyBlocks heap buffers = ((after, copy), thrown)) :
    Kept after copy ∧ heap.Extends after ∧
      (thrown = none → copy.toString after =
        chain.toString heap ++ (buffers.map ContigBuffer.contents).flatten) := by
  induction buffers generalizing heap chain with
  | nil =>
      cases copied
      exact ⟨kept, .refl _, fun _ => by simp⟩
  | cons buffer rest ih =>
      rw [SharedChain.copyBlocks] at copied
      cases made : copyBlock chain.factory buffer with
      | error fault =>
          rw [made] at copied
          cases copied
          exact ⟨kept, .refl _, nofun⟩
      | ok block =>
          rw [made] at copied
          obtain ⟨settled, contents⟩ := copyBlock_ok made
          obtain ⟨longer, text⟩ := kept.pushNew settled
          obtain ⟨done, extended, whole⟩ := ih longer copied
          refine ⟨done, (heap.extends_make _).trans extended, fun returned => ?_⟩
          rw [whole returned, text, contents]
          simp

theorem Kept.moveInto {other : SharedChain} (kept : Kept heap other)
    (entries : chain.asioChain = other.asioChain) :
    Kept heap { chain with chain := other.chain, mSize := other.mSize } :=
  ⟨kept.known, kept.settled, entries.trans kept.asio, kept.size⟩

theorem Kept.buffers_contents (kept : Kept heap chain) :
    ((chain.buffers heap).map ContigBuffer.contents).flatten = chain.toString heap :=
  kept.toString_eq.symm

end SharedChain

namespace ChainStore

open SharedChain

variable {store after : ChainStore}

def Kept (store : ChainStore) : Prop :=
  ∀ chain ∈ store.chains, chain.Kept store.heap

theorem Kept.at (kept : store.Kept) {slot : Nat} {chain : SharedChain}
    (found : store.chains[slot]? = some chain) : chain.Kept store.heap :=
  kept chain (List.mem_of_getElem? found)

theorem Kept.extend (kept : store.Kept) {heap : BlockHeap} (extended : store.heap.Extends heap) :
    Kept { store with heap } := by
  intro chain member
  exact ((kept chain member).extend extended).1

/-- What the guard says of the chain an append is called on, and of the others. -/
theorem Spared.own {slot : Nat} {data : Bytes} {chain : SharedChain}
    (spared : store.Spared (.append slot data)) (found : store.chains[slot]? = some chain) :
    ∀ last, chain.InPlace store.heap data last →
      last ∉ chain.chain.dropLast ∨ Idle store.heap data last := by
  intro last given
  obtain ⟨isLast, room⟩ := given
  rcases spared chain found last isLast room with unshared | idle
  · have own := unshared slot chain found
    rw [if_pos rfl] at own
    exact .inl own
  · exact .inr idle

theorem Spared.others {slot other : Nat} {data : Bytes} {chain neighbour : SharedChain}
    (spared : store.Spared (.append slot data)) (found : store.chains[slot]? = some chain)
    (different : other ≠ slot) (there : store.chains[other]? = some neighbour) {address : Nat}
    (member : address ∈ neighbour.chain) :
    ∀ last, chain.InPlace store.heap data last → address ≠ last ∨ Idle store.heap data last := by
  intro last given
  obtain ⟨isLast, room⟩ := given
  rcases spared chain found last isLast room with unshared | idle
  · have apart := unshared other neighbour there
    rw [if_neg different] at apart
    exact .inl fun same => apart (same ▸ member)
  · exact .inr idle

theorem Kept.append (kept : store.Kept) {slot : Nat} {data : Bytes} {chain longer : SharedChain}
    {heap : BlockHeap} (spared : store.Spared (.append slot data))
    (found : store.chains[slot]? = some chain)
    (appended : chain.append store.heap data = .ok (heap, longer)) :
    Kept ⟨heap, store.chains.set slot longer⟩ := by
  obtain ⟨next, agree⟩ := append_frame appended
  intro other member
  obtain ⟨position, there⟩ := List.mem_iff_getElem?.mp member
  by_cases same : position = slot
  · subst same
    rw [getElem?_set_found found] at there
    cases there
    exact ((kept.at found).append (spared.own found) appended).1
  · rw [List.getElem?_set_ne (Ne.symm same)] at there
    have valid := kept.at there
    refine (valid.frame next fun address inside => ?_).1
    exact agree address (valid.known address inside) (valid.settled address inside)
      (spared.others found same there inside)

theorem mSize_zero {chain : SharedChain} (empty : chain.mSize = 0) :
    { chain with mSize := 0 } = chain := by
  rw [← empty]

/-! ## The outcomes of an operation -/

inductive Performs (store : ChainStore) : ChainOperation → ChainStore → Option Fault → Prop where
  | refused (operation : ChainOperation) (fault : Fault) :
      Performs store operation store (some fault)
  | makeBlock (buffer : ContigBuffer) :
      Performs store (.makeBlock buffer) { store with heap := store.heap.make ⟨buffer, 0⟩ } none
  | new (factory : BufferMallocator) :
      Performs store (.new factory) { store with chains := store.chains ++ [.new factory] } none
  | append {slot : Nat} {data : Bytes} {chain longer : SharedChain} {heap : BlockHeap}
      (found : store.chains[slot]? = some chain)
      (appended : chain.append store.heap data = .ok (heap, longer)) :
      Performs store (.append slot data) ⟨heap, store.chains.set slot longer⟩ none
  | pushBack {slot address : Nat} {chain : SharedChain} (known : address < store.heap.next)
      (found : store.chains[slot]? = some chain) :
      Performs store (.pushBack slot address)
        ⟨store.heap, store.chains.set slot (chain.pushBack store.heap address)⟩ none
  | clear {slot : Nat} {chain : SharedChain} (found : store.chains[slot]? = some chain) :
      Performs store (.clear slot) ⟨store.heap, store.chains.set slot chain.clear⟩ none
  | copyConstruct {source : Nat} {other copy : SharedChain} {heap : BlockHeap}
      (original : store.chains[source]? = some other)
      (copied : (SharedChain.new other.factory).copyBlocks store.heap (other.buffers store.heap) =
        ((heap, copy), none)) :
      Performs store (.copyConstruct source) ⟨heap, store.chains ++ [copy]⟩ none
  | copyRefused {source : Nat} {other copy : SharedChain} {heap : BlockHeap} {fault : Fault}
      (original : store.chains[source]? = some other)
      (copied : (SharedChain.new other.factory).copyBlocks store.heap (other.buffers store.heap) =
        ((heap, copy), some fault)) :
      Performs store (.copyConstruct source) { store with heap } (some fault)
  | selfCopy {slot : Nat} {chain : SharedChain} (found : store.chains[slot]? = some chain) :
      Performs store (.copyAssign slot slot) store none
  | copyAssign {target source : Nat} {chain other copy : SharedChain} {heap : BlockHeap}
      {thrown : Option Fault} (different : target ≠ source)
      (found : store.chains[target]? = some chain) (original : store.chains[source]? = some other)
      (copied : { chain with mSize := 0 }.copyBlocks store.heap (other.buffers store.heap) =
        ((heap, copy), thrown)) :
      Performs store (.copyAssign target source) ⟨heap, store.chains.set target copy⟩ thrown
  | moveConstruct {source : Nat} {other : SharedChain}
      (original : store.chains[source]? = some other) :
      Performs store (.moveConstruct source)
        ⟨store.heap, store.chains.set source other.clear ++ [other]⟩ none
  | selfMove {slot : Nat} {chain : SharedChain} (found : store.chains[slot]? = some chain) :
      Performs store (.moveAssign slot slot) store none
  | moveAssign {target source : Nat} {chain other : SharedChain} (different : target ≠ source)
      (found : store.chains[target]? = some chain)
      (original : store.chains[source]? = some other) :
      Performs store (.moveAssign target source)
        ⟨store.heap, (store.chains.set target
          { chain with chain := other.chain, mSize := other.mSize }).set source
          { other with chain := chain.chain, mSize := chain.mSize }⟩ none

variable {operation : ChainOperation} {thrown : Option Fault}

theorem performs_of_perform (performed : store.perform operation = some (after, thrown)) :
    Performs store operation after thrown := by
  cases operation with
  | makeBlock buffer =>
      cases performed
      exact .makeBlock buffer
  | new factory =>
      cases performed
      exact .new factory
  | append slot data =>
      obtain ⟨chain, found, performed⟩ := Option.map_eq_some_iff.mp performed
      cases appended : chain.append store.heap data with
      | error fault =>
          rw [appended] at performed
          cases performed
          exact .refused _ fault
      | ok result =>
          rw [appended] at performed
          cases performed
          exact .append found appended
  | pushBack slot address =>
      rw [ChainStore.perform] at performed
      split at performed
      · next known =>
          obtain ⟨chain, found, performed⟩ := Option.map_eq_some_iff.mp performed
          cases performed
          exact .pushBack known found
      · cases performed
  | clear slot =>
      obtain ⟨chain, found, performed⟩ := Option.map_eq_some_iff.mp performed
      cases performed
      exact .clear found
  | copyConstruct source =>
      obtain ⟨other, original, performed⟩ := Option.map_eq_some_iff.mp performed
      split at performed
      · next heap copy copied =>
          cases performed
          exact .copyConstruct original copied
      · next heap copy fault copied =>
          cases performed
          exact .copyRefused original copied
  | copyAssign target source =>
      obtain ⟨chain, found, performed⟩ := Option.bind_eq_some_iff.mp performed
      obtain ⟨other, original, performed⟩ := Option.map_eq_some_iff.mp performed
      by_cases same : target = source
      · rw [if_pos same] at performed
        cases performed
        subst same
        exact .selfCopy found
      · rw [if_neg same] at performed
        cases performed
        exact .copyAssign same found original rfl
  | moveConstruct source =>
      obtain ⟨other, original, performed⟩ := Option.map_eq_some_iff.mp performed
      cases performed
      exact .moveConstruct original
  | moveAssign target source =>
      obtain ⟨chain, found, performed⟩ := Option.bind_eq_some_iff.mp performed
      obtain ⟨other, original, performed⟩ := Option.map_eq_some_iff.mp performed
      by_cases same : target = source
      · rw [if_pos same] at performed
        cases performed
        subst same
        exact .selfMove found
      · rw [if_neg same] at performed
        cases performed
        exact .moveAssign same found original

/-- One spared operation keeps every chain, also when it throws. -/
theorem Kept.perform (kept : store.Kept) (spared : store.Spared operation)
    (performs : Performs store operation after thrown) : after.Kept := by
  cases performs with
  | refused => exact kept
  | makeBlock buffer => exact kept.extend (store.heap.extends_make _)
  | new factory => exact forall_mem_push kept (new_kept store.heap factory)
  | append found appended => exact kept.append spared found appended
  | pushBack known found => exact forall_mem_set kept _ ((kept.at found).pushBack known spared)
  | clear found => exact forall_mem_set kept _ (clear_kept store.heap _)
  | @copyConstruct source other copy heap original copied =>
      obtain ⟨valid, extended, _⟩ := (new_kept store.heap other.factory).copyBlocks copied
      exact forall_mem_push (kept.extend extended) valid
  | @copyRefused source other copy heap fault original copied =>
      obtain ⟨_, extended, _⟩ := (new_kept store.heap other.factory).copyBlocks copied
      exact kept.extend extended
  | selfCopy => exact kept
  | @copyAssign target source chain other copy heap _ different found original copied =>
      rw [mSize_zero (spared.resolve_left different chain found)] at copied
      obtain ⟨valid, extended, _⟩ := (kept.at found).copyBlocks copied
      exact forall_mem_set (kept.extend extended) target valid
  | @moveConstruct source other original =>
      exact forall_mem_push (forall_mem_set kept source (clear_kept store.heap other))
        (kept.at original)
  | selfMove => exact kept
  | @moveAssign target source chain other different found original =>
      have entries := spared.resolve_left different chain found other original
      have moved := forall_mem_set kept target ((kept.at original).moveInto entries)
      exact forall_mem_set moved source ((kept.at found).moveInto entries.symm)

theorem reached_kept (reached : runs.Reaches Spared store) : store.Kept := by
  refine reached.invariant ?_ ?_
  · intro store start chain member
    rw [start.2] at member
    cases member
  · intro store operation after kept spared taken
    obtain ⟨thrown, performed⟩ := taken
    exact kept.perform spared (performs_of_perform performed)

/-- A spared append or copy assignment that returns does what it is to do. -/
theorem Kept.effect (kept : store.Kept) (spared : store.Spared operation)
    (performs : Performs store operation after thrown) (returned : thrown = none) :
    Effect store after operation := by
  cases performs with
  | refused => cases returned
  | copyRefused => cases returned
  | @append slot data chain longer heap found appended =>
      exact ⟨chain, found, longer, getElem?_set_found found _,
        ((kept.at found).append (spared.own found) appended).2⟩
  | @selfCopy slot chain found => exact ⟨chain, found, chain, found, rfl, rfl⟩
  | @copyAssign target source chain other copy heap _ different found original copied =>
      have empty := spared.resolve_left different chain found
      have valid := kept.at found
      rw [mSize_zero empty] at copied
      obtain ⟨_, extended, whole⟩ := valid.copyBlocks copied
      have bare : chain.toString store.heap = [] :=
        List.eq_nil_of_length_eq_zero (by rw [← valid.inStep.1, empty])
      have text := ((kept.at original).extend extended).2
      refine ⟨other, original, copy, getElem?_set_found found _, ?_, text⟩
      rw [whole returned, bare, List.nil_append, (kept.at original).buffers_contents]
      exact text.symm
  | makeBlock => trivial
  | new => trivial
  | pushBack => trivial
  | clear => trivial
  | copyConstruct => trivial
  | moveConstruct => trivial
  | selfMove => trivial
  | moveAssign => trivial

/-- In a run whose operations are all spared, the size, the text and the asio
sequence of every chain agree, an append adds its data at the end, and a copy
assignment gives the target the text of the source. -/
theorem spared_runs_in_step (reached : runs.Reaches Spared store) :
    (∀ chain ∈ store.chains, chain.InStep store.heap) ∧
      ∀ operation after, store.Spared operation →
        store.perform operation = some (after, none) → Effect store after operation := by
  have kept := reached_kept reached
  refine ⟨fun chain member => (kept chain member).inStep, fun operation after spared performed => ?_⟩
  exact kept.effect spared (performs_of_perform performed) rfl

def empty : ChainStore :=
  ⟨⟨fun _ => ⟨.ofStrategy .standard, 0⟩, 0⟩, []⟩

theorem copied_chain_in_step :
    ∃ store, runs.Reaches Spared store ∧ store.chains.length = 2 ∧
      ∀ chain ∈ store.chains, chain.InStep store.heap := by
  have start : runs.Reaches Spared empty := .initial ⟨rfl, rfl⟩
  have made := @Transition.Reaches.step _ _ _ _ _ _ (ChainOperation.new .standard) start trivial
    ⟨none, rfl⟩
  have filled := @Transition.Reaches.step _ _ _ _ _ _ (ChainOperation.append 0 (ascii "ab")) made
    (fun _ same _ last => by cases same; cases last) ⟨none, rfl⟩
  have second := @Transition.Reaches.step _ _ _ _ _ _ (ChainOperation.new .standard) filled trivial
    ⟨none, rfl⟩
  have copied := @Transition.Reaches.step _ _ _ _ _ _ (ChainOperation.copyAssign 1 0) second
    (.inr fun _ same => by cases same; rfl) ⟨none, rfl⟩
  exact ⟨_, copied, rfl, (spared_runs_in_step copied).1⟩

/-- A chain with "ab" to which one with "c" is assigned holds "abc" and says that
its size is one. -/
theorem assigned_chain_keeps_bytes :
    ∃ store after : ChainStore, runs.Reaches Transition.unguarded store ∧
      store.perform (.copyAssign 0 1) = some (after, none) ∧
      ∃ chain ∈ after.chains[0]?, ∃ other ∈ after.chains[1]?,
        chain.toString after.heap = ascii "abc" ∧ other.toString after.heap = ascii "c" ∧
          chain.mSize = 1 := by
  have start : runs.Reaches Transition.unguarded empty := .initial ⟨rfl, rfl⟩
  have one := @Transition.Reaches.step _ _ _ _ _ _ (ChainOperation.new .standard) start trivial
    ⟨none, rfl⟩
  have filled := @Transition.Reaches.step _ _ _ _ _ _ (ChainOperation.append 0 (ascii "ab")) one
    trivial ⟨none, rfl⟩
  have two := @Transition.Reaches.step _ _ _ _ _ _ (ChainOperation.new .standard) filled trivial
    ⟨none, rfl⟩
  have ready := @Transition.Reaches.step _ _ _ _ _ _ (ChainOperation.append 1 (ascii "c")) two
    trivial ⟨none, rfl⟩
  exact ⟨_, _, ready, rfl, _, rfl, _, rfl, by decide, by decide, by decide⟩

end ChainStore

end Marvin.Buffer
