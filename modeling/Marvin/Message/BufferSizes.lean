import Marvin.Message.FullMessageReader

namespace Marvin.Message

open Marvin.Data Marvin.Http

/-! # The sizes of reads

`ReadBufferStrategy` over the calls a reader makes.  The first call comes with no
header done and sets `m_current_body_buffer_size`, which the constructor leaves as
it is; the first call after a header starts from the `Content-Length`, and every
later one doubles the size while it is below the limit.
-/

namespace ReadBufferStrategy

/-- The sizes returned by a sequence of calls, each with the message and whether
its header is done. -/
def sizes (current : Nat) : List (MessageBase × Bool) → List Nat
  | [] => []
  | (message, headerDone) :: rest =>
      (recommendedBufferSize current message headerDone).1 ::
        sizes (recommendedBufferSize current message headerDone).2 rest

/-- The `int` that the length is read as gives a size, and no doubling of that
size is one that will be doubled beyond the maximum. -/
def Spared (message : MessageBase) : Prop :=
  ∀ value ∈ message.header HeaderFields.contentLength,
    atoi value + 100 ≠ 0 ∧ ∀ doublings : Nat,
      ¬ (131072 < (atoi value + 100) * 2 ^ doublings ∧
        (atoi value + 100) * 2 ^ doublings < 212922)

/-- A size in range that stays in range when it is doubled. -/
structure Good (size : Nat) : Prop where
  positive : 1 ≤ size
  bounded : size ≤ bodyBufferMax
  doubled (doublings : Nat) : ¬ (131072 < size * 2 ^ doublings ∧ size * 2 ^ doublings < systemRmem)

theorem bodyBufferMin_good : Good bodyBufferMin := by
  refine ⟨by decide, by decide, fun doublings between => ?_⟩
  have power : bodyBufferMin * 2 ^ doublings = 2 ^ (13 + doublings) := by
    rw [Nat.pow_add]
    rfl
  rw [power] at between
  by_cases few : 13 + doublings ≤ 17
  · have small := Nat.pow_le_pow_right (show 0 < 2 by decide) few
    omega
  · have large := Nat.pow_le_pow_right (show 0 < 2 by decide) (show 18 ≤ 13 + doublings by omega)
    have limit : systemRmem < 2 ^ 18 := by decide
    omega

theorem systemRmem_good : Good systemRmem := by
  refine ⟨by decide, by decide, fun doublings between => ?_⟩
  have grows := Nat.le_mul_of_pos_right systemRmem (Nat.two_pow_pos doublings)
  omega

theorem Good.double {size : Nat} (good : Good size) (below : size < systemRmem) :
    Good (2 * size) := by
  have small : size ≤ 131072 := by
    have here := good.doubled 0
    rw [Nat.pow_zero, Nat.mul_one] at here
    omega
  have limit : bodyBufferMax = 262144 := rfl
  have positive := good.positive
  refine ⟨by omega, by omega, fun doublings => ?_⟩
  have next := good.doubled (doublings + 1)
  rwa [Nat.pow_succ', ← Nat.mul_assoc, Nat.mul_comm size 2] at next

/-! ## The size after a header -/

def startSize (message : MessageBase) : Nat :=
  match message.header HeaderFields.contentLength with
  | some value => min ((atoi value + 100) % 2 ^ 64).toNat systemRmem
  | none => bodyBufferMin

/-- What `cl + 100` is as a `size_t`. -/
theorem wrapped_size {length : Int} (bounds : -2 ^ 31 ≤ length ∧ length < 2 ^ 31) :
    (length + 100 < 0 ∧ min ((length + 100) % 2 ^ 64).toNat systemRmem = systemRmem) ∨
      ∃ size : Nat, length + 100 = size ∧
        min ((length + 100) % 2 ^ 64).toNat systemRmem = min size systemRmem := by
  have limit : systemRmem = 212922 := rfl
  by_cases negative : length + 100 < 0
  · refine .inl ⟨negative, ?_⟩
    have wrapped : (length + 100) % 2 ^ 64 = length + 100 + 2 ^ 64 := by omega
    rw [wrapped]
    omega
  · refine .inr ⟨(length + 100).toNat, by omega, ?_⟩
    have same : (length + 100) % 2 ^ 64 = length + 100 := by omega
    rw [same]

theorem startSize_good_iff (message : MessageBase) : Good (startSize message) ↔ Spared message := by
  rw [startSize, Spared]
  cases message.header HeaderFields.contentLength with
  | none => exact iff_of_true bodyBufferMin_good nofun
  | some value =>
      simp only [Option.mem_some_iff, forall_eq']
      rcases wrapped_size (atoi_bounds value) with ⟨negative, whole⟩ | ⟨size, same, whole⟩
      · rw [whole]
        refine iff_of_true systemRmem_good ⟨by omega, fun doublings between => ?_⟩
        have below : (atoi value + 100) * 2 ^ doublings ≤ 0 :=
          Int.mul_nonpos_of_nonpos_of_nonneg (by omega) (by positivity)
        omega
      · rw [whole, same]
        have cast (doublings : Nat) :
            (131072 < (size : Int) * 2 ^ doublings ∧ (size : Int) * 2 ^ doublings < 212922) ↔
              131072 < size * 2 ^ doublings ∧ size * 2 ^ doublings < systemRmem := by
          have limit : systemRmem = 212922 := rfl
          rw [limit]
          norm_cast
        simp only [cast]
        by_cases below : size < systemRmem
        · rw [Nat.min_eq_left (Nat.le_of_lt below)]
          constructor
          · intro good
            exact ⟨by have := good.positive; omega, good.doubled⟩
          · intro spared
            have limit : systemRmem ≤ bodyBufferMax := by decide
            exact ⟨by omega, by omega, spared.2⟩
        · rw [Nat.min_eq_right (Nat.le_of_not_lt below)]
          refine iff_of_true systemRmem_good ⟨?_, fun doublings between => ?_⟩
          · have limit : 0 < systemRmem := by decide
            omega
          · have grows := Nat.le_mul_of_pos_right size (Nat.two_pow_pos doublings)
            omega

/-! ## Sequences of calls -/

theorem recommended_header (current : Nat) (message : MessageBase) :
    recommendedBufferSize current message false = (headerBuffer, 0) := rfl

theorem recommended_start (message : MessageBase) :
    recommendedBufferSize 0 message true = (startSize message, startSize message) := rfl

theorem recommended_double {current : Nat} (started : current ≠ 0) (below : current < systemRmem)
    (message : MessageBase) :
    recommendedBufferSize current message true = (2 * current, 2 * current) := by
  have limit : min systemRmem bodyBufferMax = systemRmem := by decide
  simp only [recommendedBufferSize, limit, if_neg started, if_pos below]
  rfl

theorem recommended_stay {current : Nat} (above : systemRmem ≤ current) (message : MessageBase) :
    recommendedBufferSize current message true = (current, current) := by
  have limit : min systemRmem bodyBufferMax = systemRmem := by decide
  have started : current ≠ 0 := by
    have positive : 0 < systemRmem := by decide
    omega
  simp only [recommendedBufferSize, limit, if_neg started, if_neg (Nat.not_lt.mpr above)]
  rfl

/-- One call: a size in range, from a state in which none has been recommended for
the body or a good one has. -/
theorem recommended_good {current : Nat} (ready : current = 0 ∨ Good current)
    {message : MessageBase} (spared : Spared message) (headerDone : Bool) :
    (1 ≤ (recommendedBufferSize current message headerDone).1 ∧
      (recommendedBufferSize current message headerDone).1 ≤ bodyBufferMax) ∧
    ((recommendedBufferSize current message headerDone).2 = 0 ∨
      Good (recommendedBufferSize current message headerDone).2) := by
  have ranged {size : Nat} (good : Good size) :
      (1 ≤ size ∧ size ≤ bodyBufferMax) ∧ (size = 0 ∨ Good size) :=
    ⟨⟨good.positive, good.bounded⟩, .inr good⟩
  cases headerDone with
  | false =>
      rw [recommended_header]
      exact ⟨⟨by decide, by decide⟩, .inl rfl⟩
  | true =>
      rcases ready with fresh | good
      · rw [fresh, recommended_start]
        exact ranged ((startSize_good_iff message).mpr spared)
      · have started : current ≠ 0 := by
          have positive := good.positive
          omega
        by_cases below : current < systemRmem
        · rw [recommended_double started below]
          exact ranged (good.double below)
        · rw [recommended_stay (Nat.le_of_not_lt below)]
          exact ranged good

theorem sizes_good {current : Nat} (ready : current = 0 ∨ Good current)
    {calls : List (MessageBase × Bool)} (spared : ∀ call ∈ calls, Spared call.1) :
    ∀ size ∈ sizes current calls, 1 ≤ size ∧ size ≤ bodyBufferMax := by
  induction calls generalizing current with
  | nil => exact nofun
  | cons call rest ih =>
      obtain ⟨ranged, next⟩ := recommended_good ready (spared call List.mem_cons_self) call.2
      rw [sizes, List.forall_mem_cons]
      exact ⟨ranged, ih next fun other member => spared other (List.mem_cons_of_mem _ member)⟩

/-- Calls for one body double the size as long as it is below the limit. -/
theorem mem_sizes_doubled (message : MessageBase) {current : Nat} (started : current ≠ 0)
    (doublings : Nat) (below : current * 2 ^ doublings < systemRmem) :
    current * 2 ^ (doublings + 1) ∈
      sizes current (List.replicate (doublings + 1) (message, true)) := by
  have small : current < systemRmem :=
    Nat.lt_of_le_of_lt (Nat.le_mul_of_pos_right current (Nat.two_pow_pos doublings)) below
  induction doublings generalizing current with
  | zero =>
      rw [List.replicate_succ, sizes, recommended_double started small, Nat.zero_add, Nat.pow_one,
        Nat.mul_comm]
      exact List.mem_cons_self
  | succ doublings ih =>
      have twice : current * 2 ^ (doublings + 1) = 2 * current * 2 ^ doublings := by
        rw [Nat.pow_succ', ← Nat.mul_assoc, Nat.mul_comm current 2]
      rw [twice] at below
      have next : 2 * current < systemRmem :=
        Nat.lt_of_le_of_lt (Nat.le_mul_of_pos_right _ (Nat.two_pow_pos doublings)) below
      have later := @ih (2 * current) (by omega) below next
      rw [List.replicate_succ, sizes, recommended_double started small]
      refine List.mem_cons_of_mem _ ?_
      rw [Nat.pow_succ', ← Nat.mul_assoc, Nat.mul_comm current 2]
      exact later

/-- The reads of a reader have a size between one and the maximum, whatever it is
called for and however often, exactly when the messages are spared. -/
theorem recommended_sizes_in_range_iff (allowed : MessageBase → Prop) :
    (∀ current first calls, allowed first → (∀ call ∈ calls, allowed call.1) →
      ∀ size ∈ sizes current ((first, false) :: calls), 1 ≤ size ∧ size ≤ bodyBufferMax) ↔
    ∀ message, allowed message → Spared message := by
  constructor
  · intro ranged message member
    rw [← startSize_good_iff]
    have body (count : Nat) : ∀ size ∈ sizes (startSize message)
        (List.replicate count (message, true)), 1 ≤ size ∧ size ≤ bodyBufferMax := by
      intro size inside
      refine ranged 0 message (List.replicate (count + 1) (message, true)) member ?_ size ?_
      · intro call repeated
        rw [List.eq_of_mem_replicate repeated]
        exact member
      · rw [sizes, recommended_header, List.replicate_succ, sizes, recommended_start]
        exact List.mem_cons_of_mem _ (List.mem_cons_of_mem _ inside)
    have start : 1 ≤ startSize message ∧ startSize message ≤ bodyBufferMax := by
      refine ranged 0 message [(message, true)] member (by simpa using member) _ ?_
      rw [sizes, recommended_header, sizes, recommended_start]
      exact List.mem_cons_of_mem _ List.mem_cons_self
    refine ⟨start.1, start.2, fun doublings between => ?_⟩
    have doubled := mem_sizes_doubled message (Nat.ne_of_gt start.1) doublings between.2
    have small := (body (doublings + 1) _ doubled).2
    rw [Nat.pow_succ, ← Nat.mul_assoc] at small
    have limit : bodyBufferMax = 262144 := rfl
    omega
  · intro spared current first calls _ members size inside
    rw [sizes, recommended_header, List.mem_cons] at inside
    rcases inside with header | body
    · rw [header]
      exact ⟨by decide, by decide⟩
    · exact sizes_good (.inl rfl) (fun call member => spared call.1 (members call member)) size body

/-- The length 2^32 - 100 gives a read of nothing, and the second read for a length
of 150000 is beyond the maximum. -/
theorem recommended_sizes_out_of_range :
    sizes 0 [(.new, false),
        (MessageBase.new.setHeader HeaderFields.contentLength (ascii "4294967196"), true)] =
      [1024, 0] ∧
    sizes 0 [(.new, false),
        (MessageBase.new.setHeader HeaderFields.contentLength (ascii "150000"), true),
        (MessageBase.new.setHeader HeaderFields.contentLength (ascii "150000"), true)] =
      [1024, 150100, 300200] ∧ 300200 > bodyBufferMax :=
  ⟨by decide, by decide, by decide⟩

end ReadBufferStrategy

end Marvin.Message
