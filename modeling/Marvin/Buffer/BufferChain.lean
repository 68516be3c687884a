import Marvin.Buffer.ContigBuffer

namespace Marvin.Buffer

open Marvin.Data

/-! # Buffer chains

`marvin/buffer/buffer_chain.hpp`.  An asio `const_buffer` points at the start
of a slab and has a size; it is represented by the bytes it covers when it is
made, which later appends to the same slab leave in place.
-/

structure BufferChain where
  factory : BufferMallocator
  chain : List ContigBuffer
  asioChain : List Bytes
  mSize : Nat
deriving DecidableEq, Repr

namespace BufferChain

/-- `makeBufferChainSPtr()`. -/
def empty : BufferChain := ⟨.standard, [], [], 0⟩

def size (chain : BufferChain) : Nat := chain.mSize

def pushBack (chain : BufferChain) (block : ContigBuffer) : BufferChain :=
  { chain with
    chain := chain.chain ++ [block]
    asioChain := chain.asioChain ++ [block.contents]
    mSize := chain.mSize + block.size }

def appendBlock (chain : BufferChain) (data : Bytes) : Except Fault BufferChain := do
  let requiredLen := if data.length > 256 * 4 * 8 then data.length + 100 else 256 * 4 * 8
  let block ← ContigBuffer.ofCapacity chain.factory requiredLen
  let block ← block.append data
  return chain.pushBack block

def append (chain : BufferChain) (data : Bytes) : Except Fault BufferChain :=
  match chain.chain.getLast? with
  | some last =>
      if last.capacity - last.size ≥ data.length then do
        let last ← last.append data
        return { chain with
          chain := chain.chain.dropLast ++ [last]
          asioChain := chain.asioChain.dropLast ++ [last.contents]
          mSize := chain.mSize + data.length }
      else chain.appendBlock data
  | none => chain.appendBlock data

def toString (chain : BufferChain) : Bytes :=
  (chain.chain.map ContigBuffer.toString).flatten

def amalgamate (chain : BufferChain) : Except Fault ContigBuffer := do
  let final ← ContigBuffer.ofCapacity chain.factory chain.size
  chain.chain.foldlM (fun final block => final.append block.contents) final

/-- `makeBufferChainSPtr(std::string)`. -/
def ofText (text : Bytes) : Except Fault BufferChain := do
  let block ← ContigBuffer.ofCapacity .standard text.length
  let block ← block.append text
  return empty.pushBack block

/-- `asio_buffer_sequence()`, read out by a gathering write. -/
def asioBytes (chain : BufferChain) : Bytes :=
  chain.asioChain.flatten

/-- A block of a chain that grows by appends only.  Its free room stays below
half the limit, because a block doubles only when it is exactly full. -/
structure Block (block : ContigBuffer) : Prop where
  sound : block.Sound
  strategy : block.strategy = .standard
  room : block.mCapacity ≤ block.mLength + 512 * 1024

/-- A chain made by a sequence of successful appends to an empty one. -/
structure Built (chain : BufferChain) : Prop where
  factory : chain.factory = .standard
  blocks : ∀ block ∈ chain.chain, Block block
  asio : chain.asioChain = chain.chain.map ContigBuffer.contents
  size : chain.mSize = chain.toString.length

theorem empty_built : empty.Built :=
  ⟨rfl, by simp [empty], rfl, rfl⟩

theorem blocks_toString {blocks : List ContigBuffer} (valid : ∀ block ∈ blocks, Block block) :
    (blocks.map ContigBuffer.toString).flatten = (blocks.map ContigBuffer.contents).flatten := by
  congr 1
  apply List.map_congr_left
  intro block member
  exact (valid block member).sound.toString_eq

theorem Block.append {block : ContigBuffer} (valid : Block block) (data : Bytes)
    (room : block.mLength + data.length ≤ block.mCapacity) :
    ∃ after, block.append data = .ok after ∧ Block after ∧
      after.contents = block.contents ++ data := by
  have limit : block.strategy.maxSize = 1024 * 1024 := by rw [valid.strategy]; rfl
  have bounded := valid.sound.bounded
  obtain ⟨after, appended, sound, contents, strategy, length, capacity⟩ :=
    ContigBuffer.append_ok valid.sound data (by omega)
  refine ⟨after, appended, ⟨sound, strategy.trans valid.strategy, ?_⟩, contents⟩
  have free := valid.room
  rw [capacity, length, ContigBuffer.grownCapacity, limit]
  split <;> omega

theorem new_block {data : Bytes} (small : data.length + 100 ≤ 1024 * 1024) :
    ∃ block after, ContigBuffer.ofCapacity .standard
        (if data.length > 256 * 4 * 8 then data.length + 100 else 256 * 4 * 8) = .ok block ∧
      block.append data = .ok after ∧ Block after ∧ after.contents = data ∧
      after.size = data.length := by
  let capacity := if data.length > 256 * 4 * 8 then data.length + 100 else 256 * 4 * 8
  have bounds : data.length ≤ capacity ∧ 8192 ≤ capacity ∧ capacity ≤ 1024 * 1024 ∧
      capacity ≤ data.length + 8192 := by
    dsimp only [capacity]
    split <;> omega
  have whole : max capacity BufferMallocator.standard.minSize = capacity :=
    Nat.max_eq_left (Nat.le_trans (by decide) bounds.2.1)
  have allocated := ContigBuffer.ofCapacity_ok .standard capacity (by rw [whole]; exact bounds.2.2.1)
  rw [whole] at allocated
  let block : ContigBuffer := ⟨.standard, [], 0, capacity, 0⟩
  have sound : block.Sound := ⟨rfl, rfl, Nat.zero_le _, bounds.2.2.1⟩
  obtain ⟨after, appended, filled, contents, strategy, length, grown⟩ :=
    ContigBuffer.append_ok sound data (by
      change 0 + data.length ≤ 1024 * 1024
      omega)
  have text : after.contents = data := by simpa [block, ContigBuffer.contents, peek] using contents
  have size : after.mLength = data.length := by simpa [block] using length
  refine ⟨block, after, allocated, appended, ⟨filled, strategy, ?_⟩, text, size⟩
  have limit : block.strategy.maxSize = 1024 * 1024 := rfl
  rw [grown, size, ContigBuffer.grownCapacity, limit]
  dsimp only [block]
  split <;> omega

theorem appendBlock_ok {chain : BufferChain} (built : chain.Built) (data : Bytes)
    (small : data.length + 100 ≤ 1024 * 1024) :
    ∃ after, chain.appendBlock data = .ok after ∧ after.Built ∧
      after.toString = chain.toString ++ data := by
  obtain ⟨block, filled, allocated, appended, valid, contents, size⟩ := new_block small
  rw [← built.factory] at allocated
  have text : (chain.pushBack filled).toString = chain.toString ++ data := by
    simp [toString, pushBack, valid.sound.toString_eq, contents]
  refine ⟨chain.pushBack filled, ?_, ⟨built.factory, ?_, ?_, ?_⟩, text⟩
  · simp only [appendBlock, allocated, appended, bind, Except.bind, pure, Except.pure]
  · intro other member
    rcases List.mem_append.mp member with old | new
    · exact built.blocks other old
    · rw [List.mem_singleton.mp new]
      exact valid
  · simp [pushBack, built.asio]
  · rw [text]
    simp [pushBack, built.size, size]

theorem appendBlock_error {chain : BufferChain} (built : chain.Built) (data : Bytes)
    (big : 1024 * 1024 < data.length + 100) :
    chain.appendBlock data = .error .requestedAllocationTooBig := by
  have long : data.length > 256 * 4 * 8 := by omega
  have refused := ContigBuffer.ofCapacity_error chain.factory (data.length + 100)
    (by rw [built.factory]; exact Nat.lt_of_lt_of_le big (Nat.le_max_left _ _))
  simp only [appendBlock, if_pos long, refused, bind, Except.bind]

theorem toString_getLast {chain : BufferChain} (built : chain.Built) {last : ContigBuffer}
    (found : chain.chain.getLast? = some last) :
    chain.toString =
      (chain.chain.dropLast.map ContigBuffer.toString).flatten ++ last.contents ∧ Block last := by
  have split := List.dropLast_append_getLast? last found
  have valid := built.blocks last (List.mem_of_getLast? found)
  refine ⟨?_, valid⟩
  rw [toString]
  conv_lhs => rw [← split]
  simp [valid.sound.toString_eq]

/-- Appending to a chain succeeds exactly when the piece, with its slack of 100
bytes, is within the allocator's limit. -/
theorem append_ok {chain : BufferChain} (built : chain.Built) (data : Bytes)
    (small : data.length + 100 ≤ 1024 * 1024) :
    ∃ after, chain.append data = .ok after ∧ after.Built ∧
      after.toString = chain.toString ++ data := by
  cases found : chain.chain.getLast? with
  | none =>
      simp only [append, found]
      exact appendBlock_ok built data small
  | some last =>
      by_cases roomy : last.capacity - last.size ≥ data.length
      · obtain ⟨text, valid⟩ := toString_getLast built found
        have fits := valid.sound.fits
        obtain ⟨grown, appended, block, contents⟩ := valid.append data
          (by simp only [ContigBuffer.capacity, ContigBuffer.size] at roomy; omega)
        let after : BufferChain := { chain with
          chain := chain.chain.dropLast ++ [grown]
          asioChain := chain.asioChain.dropLast ++ [grown.contents]
          mSize := chain.mSize + data.length }
        have whole : after.toString = chain.toString ++ data := by
          rw [text]
          simp [toString, after, block.sound.toString_eq, contents]
        refine ⟨after, ?_, ⟨built.factory, ?_, ?_, ?_⟩, whole⟩
        · simp only [append, found, if_pos roomy, appended, bind, Except.bind, pure, Except.pure]
          rfl
        · intro other member
          rcases List.mem_append.mp member with old | new
          · exact built.blocks other (((List.dropLast_sublist _).subset old))
          · rw [List.mem_singleton.mp new]
            exact block
        · simp [after, built.asio, List.map_dropLast]
        · rw [whole]
          simp [after, built.size]
      · simp only [append, found, if_neg roomy]
        exact appendBlock_ok built data small

theorem small_of_append {chain after : BufferChain} (built : chain.Built) {data : Bytes}
    (appended : chain.append data = .ok after) : data.length + 100 ≤ 1024 * 1024 := by
  by_contra big
  have refused := appendBlock_error built data (by omega)
  cases found : chain.chain.getLast? with
  | none => simp [append, found, refused] at appended
  | some last =>
      have valid := (toString_getLast built found).2
      have room := valid.room
      have tight : ¬ last.capacity - last.size ≥ data.length := by
        simp only [ContigBuffer.capacity, ContigBuffer.size]
        omega
      simp [append, found, tight, refused] at appended

/-! ## Chains of arbitrary blocks

A chain may be made of blocks that were filled elsewhere; its counts still
agree with its blocks. -/

/-- The bytes of the blocks. -/
def bytes (chain : BufferChain) : Bytes :=
  (chain.chain.map ContigBuffer.contents).flatten

/-- What every constructor, `append` and `push_back` keep. -/
structure Tallied (chain : BufferChain) : Prop where
  asio : chain.asioChain = chain.chain.map ContigBuffer.contents
  size : chain.mSize = chain.bytes.length

theorem Tallied.asioBytes_eq {chain : BufferChain} (tallied : chain.Tallied) :
    chain.asioBytes = chain.bytes := by
  rw [asioBytes, tallied.asio, bytes]

theorem Tallied.bytes_length {chain : BufferChain} (tallied : chain.Tallied) :
    chain.bytes.length = chain.size :=
  tallied.size.symm

theorem empty_tallied : empty.Tallied := ⟨rfl, rfl⟩

theorem Built.bytes_eq {chain : BufferChain} (built : chain.Built) : chain.bytes = chain.toString :=
  (blocks_toString built.blocks).symm

theorem Built.tallied {chain : BufferChain} (built : chain.Built) : chain.Tallied :=
  ⟨built.asio, by rw [built.bytes_eq]; exact built.size⟩

theorem bytes_pushBack (chain : BufferChain) (block : ContigBuffer) :
    (chain.pushBack block).bytes = chain.bytes ++ block.contents := by
  simp [bytes, pushBack]

theorem Tallied.pushBack {chain : BufferChain} (tallied : chain.Tallied) (block : ContigBuffer) :
    (chain.pushBack block).Tallied := by
  refine ⟨by simp [BufferChain.pushBack, tallied.asio], ?_⟩
  rw [bytes_pushBack, List.length_append, ← tallied.size, block.contents_length]
  rfl

theorem appendBlock_pushes {chain after : BufferChain} {data : Bytes}
    (appended : chain.appendBlock data = .ok after) :
    ∃ filled : ContigBuffer, filled.contents = data ∧ filled.mSize = filled.mLength ∧
      after = chain.pushBack filled := by
  obtain ⟨block, allocated, filling⟩ := exists_ok_of_bind appended
  obtain ⟨filled, stored, rest⟩ := exists_ok_of_bind filling
  obtain rfl := Except.ok.inj rest
  refine ⟨filled, ContigBuffer.filled_contents allocated stored, ?_, rfl⟩
  rw [(ContigBuffer.append_eq_ok.mp stored).2]
  rfl

/-- An append pushes a block of its own or grows the last one. -/
theorem append_cases {chain after : BufferChain} {data : Bytes}
    (appended : chain.append data = .ok after) :
    (∃ filled : ContigBuffer, filled.contents = data ∧ filled.mSize = filled.mLength ∧
      after = chain.pushBack filled) ∨
    ∃ last grown, chain.chain.getLast? = some last ∧ last.append data = .ok grown ∧
      after = { chain with
        chain := chain.chain.dropLast ++ [grown]
        asioChain := chain.asioChain.dropLast ++ [grown.contents]
        mSize := chain.mSize + data.length } := by
  unfold append at appended
  split at appended
  · next last found =>
      split at appended
      · obtain ⟨grown, stored, rest⟩ := exists_ok_of_bind appended
        exact .inr ⟨last, grown, found, stored, (Except.ok.inj rest).symm⟩
      · exact .inl (appendBlock_pushes appended)
  · exact .inl (appendBlock_pushes appended)

theorem append_tallied {chain after : BufferChain} {data : Bytes} (tallied : chain.Tallied)
    (appended : chain.append data = .ok after) :
    after.Tallied ∧ after.bytes = chain.bytes ++ data := by
  obtain ⟨filled, text, _, rfl⟩ | ⟨last, grown, found, stored, rfl⟩ := append_cases appended
  · exact ⟨tallied.pushBack filled, by rw [bytes_pushBack, text]⟩
  · have front := List.dropLast_append_getLast? last found
    have text := ContigBuffer.append_contents stored
    have whole : ((chain.chain.dropLast ++ [grown]).map ContigBuffer.contents).flatten =
        chain.bytes ++ data := by
      rw [bytes]
      conv_rhs => rw [← front]
      simp [text]
    refine ⟨⟨by simp [tallied.asio, List.map_dropLast], ?_⟩, whole⟩
    rw [bytes, whole, List.length_append, ← tallied.size]

theorem ofText_tallied {text : Bytes} {chain : BufferChain} (made : ofText text = .ok chain) :
    chain.Tallied ∧ chain.bytes = text := by
  obtain ⟨block, allocated, filling⟩ := exists_ok_of_bind made
  obtain ⟨filled, stored, rest⟩ := exists_ok_of_bind filling
  obtain rfl := Except.ok.inj rest
  have text := ContigBuffer.filled_contents allocated stored
  refine ⟨empty_tallied.pushBack filled, ?_⟩
  rw [bytes_pushBack, text]
  rfl

/-! ## Making a chain contiguous -/

theorem foldlM_contents (blocks : List ContigBuffer) (final : ContigBuffer) :
    blocks.foldlM (fun final block => final.append block.contents) final =
      (blocks.map ContigBuffer.contents).foldlM ContigBuffer.append final := by
  rw [List.foldlM_map]

/-- A chain can be made contiguous when the allocator gives a block of its size
and its bytes fit in one. -/
theorem amalgamate_exists {chain : BufferChain}
    (allocated : max chain.size chain.factory.minSize ≤ chain.factory.maxSize)
    (fits : chain.bytes.length ≤ chain.factory.maxSize) :
    ∃ after, chain.amalgamate = .ok after ∧ after.Sound ∧ after.contents = chain.bytes := by
  let start : ContigBuffer := ⟨chain.factory, [], 0, max chain.size chain.factory.minSize, 0⟩
  have ready : start.Sound := ⟨rfl, rfl, Nat.zero_le _, allocated⟩
  obtain ⟨after, folded, sound, contents⟩ := ContigBuffer.appendAll_ok ready
    (chain.chain.map ContigBuffer.contents) (by simpa [start, bytes] using fits)
  refine ⟨after, ?_, sound, ?_⟩
  · simp only [amalgamate, ContigBuffer.ofCapacity_ok chain.factory chain.size allocated, bind,
      Except.bind, foldlM_contents]
    exact folded
  · rw [contents, bytes]
    rfl

theorem amalgamate_refused {chain : BufferChain}
    (big : chain.factory.maxSize < max chain.size chain.factory.minSize ∨
      chain.factory.maxSize < chain.bytes.length) :
    chain.amalgamate = .error .requestedAllocationTooBig := by
  by_cases allocated : max chain.size chain.factory.minSize ≤ chain.factory.maxSize
  · let start : ContigBuffer := ⟨chain.factory, [], 0, max chain.size chain.factory.minSize, 0⟩
    have ready : start.Sound := ⟨rfl, rfl, Nat.zero_le _, allocated⟩
    have long := big.resolve_left (Nat.not_lt.mpr allocated)
    simp only [amalgamate, ContigBuffer.ofCapacity_ok chain.factory chain.size allocated, bind,
      Except.bind, foldlM_contents]
    exact ContigBuffer.appendAll_error ready _ (by simpa [start, bytes] using long)
  · have refused := ContigBuffer.ofCapacity_error chain.factory chain.size (Nat.lt_of_not_le allocated)
    simp only [amalgamate, refused, bind, Except.bind]

/-- A built chain can be made contiguous exactly when its whole content is
within the allocator's limit. -/
theorem amalgamate_ok {chain : BufferChain} (built : chain.Built)
    (small : chain.size ≤ 1024 * 1024) :
    ∃ after, chain.amalgamate = .ok after ∧ after.Sound ∧ after.contents = chain.toString := by
  have limit : chain.factory.maxSize = 1024 * 1024 := by rw [built.factory]; rfl
  rw [← built.bytes_eq]
  apply amalgamate_exists
  · rw [limit, built.factory]
    exact Nat.max_le.mpr ⟨small, by decide⟩
  · rw [limit, built.tallied.bytes_length]
    exact small

theorem amalgamate_error {chain : BufferChain} (built : chain.Built)
    (big : 1024 * 1024 < chain.size) :
    chain.amalgamate = .error .requestedAllocationTooBig := by
  have limit : chain.factory.maxSize = 1024 * 1024 := by rw [built.factory]; rfl
  exact amalgamate_refused (.inl (limit ▸ Nat.lt_of_lt_of_le big (Nat.le_max_left _ _)))

/-! ## Chains made by appends -/

/-- `BufferChain(factory)`. -/
def ofFactory (factory : BufferMallocator) : BufferChain := ⟨factory, [], [], 0⟩

/-- Both lengths of every block agree. -/
def Level (chain : BufferChain) : Prop :=
  ∀ block ∈ chain.chain, block.mSize = block.mLength

theorem Level.toString_eq {chain : BufferChain} (level : chain.Level) :
    chain.toString = chain.bytes := by
  rw [toString, bytes]
  congr 1
  apply List.map_congr_left
  intro block member
  rw [ContigBuffer.toString, level block member, ContigBuffer.contents]

theorem Level.pushBack {chain : BufferChain} (level : chain.Level) {block : ContigBuffer}
    (same : block.mSize = block.mLength) : (chain.pushBack block).Level := by
  intro other member
  rcases List.mem_append.mp member with old | new
  · exact level other old
  · rw [List.mem_singleton.mp new, same]

theorem append_level {chain after : BufferChain} {data : Bytes} (level : chain.Level)
    (appended : chain.append data = .ok after) :
    after.Level ∧ after.factory = chain.factory := by
  obtain ⟨filled, _, same, rfl⟩ | ⟨last, grown, _, stored, rfl⟩ := append_cases appended
  · exact ⟨level.pushBack same, rfl⟩
  · refine ⟨?_, rfl⟩
    intro other member
    rcases List.mem_append.mp member with old | new
    · exact level other ((List.dropLast_sublist _).subset old)
    · rw [List.mem_singleton.mp new, (ContigBuffer.append_eq_ok.mp stored).2]
      rfl

theorem appendAll_tallied {chain after : BufferChain} {pieces : List Bytes}
    (tallied : chain.Tallied) (level : chain.Level)
    (appended : pieces.foldlM append chain = .ok after) :
    after.Tallied ∧ after.Level ∧ after.factory = chain.factory ∧
      after.bytes = chain.bytes ++ pieces.flatten := by
  induction pieces generalizing chain with
  | nil =>
      cases appended
      exact ⟨tallied, level, rfl, by simp⟩
  | cons piece rest ih =>
      cases first : chain.append piece with
      | error fault =>
          rw [List.foldlM_cons, first] at appended
          cases appended
      | ok next =>
          rw [List.foldlM_cons, first] at appended
          obtain ⟨nextTallied, text⟩ := append_tallied tallied first
          obtain ⟨nextLevel, factory⟩ := append_level level first
          obtain ⟨all, even, same, whole⟩ := ih nextTallied nextLevel appended
          exact ⟨all, even, same.trans factory, by rw [whole, text]; simp⟩

/-- A chain made by appends can be made contiguous exactly when the allocator
would give one block for all that was appended. -/
theorem appended_amalgamates_iff {factory : BufferMallocator} {pieces : List Bytes}
    {chain : BufferChain} (appended : pieces.foldlM append (ofFactory factory) = .ok chain) :
    (∃ after, chain.amalgamate = .ok after ∧ after.contents = chain.toString ∧
        after.toString = chain.toString) ↔
      max pieces.flatten.length factory.minSize ≤ factory.maxSize := by
  obtain ⟨tallied, level, same, text⟩ :=
    @appendAll_tallied (ofFactory factory) chain pieces ⟨rfl, rfl⟩ (by simp [Level, ofFactory])
      appended
  have whole : chain.bytes = pieces.flatten := text
  have size : chain.size = pieces.flatten.length := by
    rw [← tallied.bytes_length, whole]
  have made : chain.factory = factory := same
  rw [level.toString_eq, ← size, ← made]
  constructor
  · intro given
    obtain ⟨after, amalgamated, _⟩ := given
    by_contra big
    rw [amalgamate_refused (.inl (Nat.lt_of_not_le big))] at amalgamated
    cases amalgamated
  · intro room
    have fits : chain.bytes.length ≤ chain.factory.maxSize := by
      rw [tallied.bytes_length]
      exact (Nat.le_max_left _ _).trans room
    obtain ⟨after, amalgamated, sound, contents⟩ := amalgamate_exists room fits
    exact ⟨after, amalgamated, contents, sound.toString_eq.trans contents⟩

theorem short_chain_amalgamates :
    ∃ chain, [ascii "ab", ascii "c"].foldlM append (ofFactory .standard) = .ok chain ∧
      ∃ after, chain.amalgamate = .ok after ∧ after.contents = chain.toString ∧
        after.toString = chain.toString :=
  ⟨_, rfl, (@appended_amalgamates_iff .standard [ascii "ab", ascii "c"] _ rfl).mpr (by decide)⟩

/-- Two pieces of 600 KiB can be appended, and cannot be made contiguous. -/
theorem long_chain_not_amalgamated :
    ∃ chain, [List.replicate (600 * 1024) 97, List.replicate (600 * 1024) 98].foldlM append
        (ofFactory .standard) = .ok chain ∧
      chain.amalgamate = .error .requestedAllocationTooBig := by
  obtain ⟨first, one, firstBuilt, firstText⟩ := append_ok empty_built
    (List.replicate (600 * 1024) 97) (by rw [List.length_replicate]; decide)
  obtain ⟨second, two, built, text⟩ := append_ok firstBuilt
    (List.replicate (600 * 1024) 98) (by rw [List.length_replicate]; decide)
  have size : second.size = 600 * 1024 + 600 * 1024 := by
    rw [size, built.size, text, firstText, List.length_append, List.length_append,
      List.length_replicate, List.length_replicate]
    rfl
  refine ⟨second, ?_, amalgamate_error built (by rw [size]; decide)⟩
  change ([List.replicate (600 * 1024) 97, List.replicate (600 * 1024) 98].foldlM append empty) = _
  rw [List.foldlM_cons, one]
  change (List.foldlM append first [List.replicate (600 * 1024) 98]) = _
  rw [List.foldlM_cons, two]
  rfl

end BufferChain

end Marvin.Buffer
