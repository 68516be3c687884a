import Marvin.Message.MessageWriter

namespace Marvin.Client

open Marvin.Data Marvin.Buffer Marvin.Http Marvin.Message

/-! # The client

The writing half of `marvin/client/client.cpp`, on a connection that is there
or is made without an error.  Every write gets a new `MessageWriter`.
-/

variable (methodStr : HttpMethod → Bytes)

def pSetContentLength (request : MessageBase) (body : ContigBuffer) : MessageBase :=
  request.setHeader HeaderFields.contentLength (decimal body.size)

def pInternalWrite (request : MessageBase) (body : ContigBuffer) : Except Fault Written :=
  MessageWriter.new.asyncWriteBuffer methodStr (pSetContentLength request body) body

/-- The overload of `async_write` for a `BufferChain`. -/
def asyncWriteChain (request : MessageBase) (chain : BufferChain) : Except Fault Written := do
  let body ← chain.amalgamate
  pInternalWrite methodStr request body

variable {methodStr}

/-! ## The overloads of `async_write`

Each of them makes one buffer of the body before the request is written. -/

/-- `makeContigBufferSPtr(std::string)`. -/
def makeContigBuffer (text : Bytes) : Except Fault ContigBuffer := do
  let buffer ← ContigBuffer.ofCapacity .standard text.length
  buffer.append text

inductive WriteCall where
  | text (body : Bytes)
  | buffer (body : ContigBuffer)
  | chain (body : BufferChain)
  | bare
deriving DecidableEq, Repr

/-- What the overload stores in `m_body_mbuffer_sptr`. -/
def bodyBuffer : WriteCall → Except Fault ContigBuffer
  | .text body => makeContigBuffer body
  | .buffer body => .ok body
  | .chain body => body.amalgamate
  | .bare => makeContigBuffer []

def asyncWrite (methodStr : HttpMethod → Bytes) (request : MessageBase) (call : WriteCall) :
    Except Fault Written := do
  let body ← bodyBuffer call
  pInternalWrite methodStr request body

theorem asyncWrite_chain (request : MessageBase) (chain : BufferChain) :
    asyncWrite methodStr request (.chain chain) = asyncWriteChain methodStr request chain := rfl

/-- The body a call is documented to send. -/
def WriteCall.documentedBody (request : MessageBase) : WriteCall → Bytes
  | .text body => body
  | .buffer body => body.contents
  | .chain body => body.bytes
  | .bare => request.body.bytes

/-- A string or a chain is sent when it can be copied into one buffer; the
overload without a body argument ignores the body of the request. -/
def WriteCall.Sendable (request : MessageBase) : WriteCall → Prop
  | .text body => body.length ≤ 1024 * 1024
  | .buffer _ => True
  | .chain body =>
      max body.size body.factory.minSize ≤ body.factory.maxSize ∧
        body.bytes.length ≤ body.factory.maxSize
  | .bare => request.body.bytes = []

theorem makeContigBuffer_ok {text : Bytes} (small : text.length ≤ 1024 * 1024) :
    ∃ body, makeContigBuffer text = .ok body ∧ body.contents = text := by
  have capacity : max text.length BufferMallocator.standard.minSize ≤
      BufferMallocator.standard.maxSize := Nat.max_le.mpr ⟨small, by decide⟩
  have allocated := ContigBuffer.ofCapacity_ok .standard text.length capacity
  let start : ContigBuffer := ⟨.standard, [], 0, max text.length BufferMallocator.standard.minSize, 0⟩
  have stored : start.append text = .ok (start.appended text) :=
    ContigBuffer.append_exists (by simpa [start, BufferMallocator.standard] using small)
  refine ⟨start.appended text, ?_, ?_⟩
  · simp only [makeContigBuffer, allocated, bind, Except.bind]
    exact stored
  · rw [ContigBuffer.appended_contents]
    rfl

theorem makeContigBuffer_error {text : Bytes} (big : 1024 * 1024 < text.length) :
    makeContigBuffer text = .error .requestedAllocationTooBig := by
  have refused := ContigBuffer.ofCapacity_error .standard text.length
    (Nat.lt_of_lt_of_le big (Nat.le_max_left _ _))
  simp only [makeContigBuffer, refused, bind, Except.bind]

theorem bodyBuffer_iff (request : MessageBase) (call : WriteCall) :
    (∃ body, bodyBuffer call = .ok body ∧ body.contents = call.documentedBody request) ↔
      call.Sendable request := by
  cases call with
  | text body =>
      constructor
      · intro given
        obtain ⟨made, done, _⟩ := given
        by_contra big
        rw [bodyBuffer, makeContigBuffer_error (Nat.lt_of_not_le big)] at done
        cases done
      · intro small
        exact makeContigBuffer_ok small
  | buffer body => exact ⟨fun _ => trivial, fun _ => ⟨body, rfl, rfl⟩⟩
  | chain body =>
      constructor
      · intro given
        obtain ⟨made, done, _⟩ := given
        by_contra big
        rw [WriteCall.Sendable, not_and_or, Nat.not_le, Nat.not_le] at big
        rw [bodyBuffer, BufferChain.amalgamate_refused big] at done
        cases done
      · intro given
        obtain ⟨allocated, fits⟩ := given
        obtain ⟨made, done, _, text⟩ := BufferChain.amalgamate_exists allocated fits
        exact ⟨made, done, text⟩
  | bare =>
      obtain ⟨empty, made, none⟩ := @makeContigBuffer_ok [] (Nat.zero_le _)
      constructor
      · intro given
        obtain ⟨body, done, text⟩ := given
        obtain rfl : empty = body := Except.ok.inj (made.symm.trans done)
        exact text.symm.trans none
      · intro bodiless
        exact ⟨empty, made, none.trans bodiless.symm⟩

/-- A buffer is sent behind its head, if the head fits in a buffer. -/
theorem pInternalWrite_eq_ok {request : MessageBase} {body : ContigBuffer} {written : Written} :
    pInternalWrite methodStr request body = .ok written ↔
      ((pSetContentLength request body).headPieces methodStr).flatten.length ≤ 1024 * 1024 ∧
        written = ⟨pSetContentLength request body,
          ((pSetContentLength request body).headPieces methodStr).flatten, body.contents⟩ := by
  by_cases small : ((pSetContentLength request body).headPieces methodStr).flatten.length ≤
      1024 * 1024
  · obtain ⟨head, serialized, text⟩ := MessageBase.serializeHeaders_ok small
    have done : pInternalWrite methodStr request body = .ok ⟨pSetContentLength request body,
        ((pSetContentLength request body).headPieces methodStr).flatten, body.contents⟩ := by
      simp only [pInternalWrite, MessageWriter.asyncWriteBuffer, MessageWriter.asyncWrite,
        serialized, bind, Except.bind, text, MessageWriter.fullBody_buffer]
      rfl
    rw [done, Except.ok.injEq, and_iff_right small]
    exact eq_comm
  · have refused : pInternalWrite methodStr request body = .error .requestedAllocationTooBig := by
      simp only [pInternalWrite, MessageWriter.asyncWriteBuffer, MessageWriter.asyncWrite,
        MessageBase.serializeHeaders_error (Nat.lt_of_not_le small), bind, Except.bind]
    rw [refused]
    constructor
    · intro done
      cases done
    · intro sent
      exact absurd sent.1 small

theorem asyncWrite_eq_ok {request : MessageBase} {call : WriteCall} {written : Written} :
    asyncWrite methodStr request call = .ok written ↔
      ∃ body, bodyBuffer call = .ok body ∧ pInternalWrite methodStr request body = .ok written := by
  cases made : bodyBuffer call with
  | error fault => simp [asyncWrite, made, bind, Except.bind]
  | ok body => simp [asyncWrite, made, bind, Except.bind]

theorem asyncWriteChain_ok {request : MessageBase} {chain : BufferChain} {written : Written}
    (built : chain.Built) (done : asyncWriteChain methodStr request chain = .ok written) :
    written.message = request.setHeader HeaderFields.contentLength (decimal written.body.length) ∧
      written.body = chain.toString ∧ chain.size ≤ 1024 * 1024 := by
  rw [← asyncWrite_chain] at done
  obtain ⟨body, amalgamated, sent⟩ := asyncWrite_eq_ok.mp done
  obtain ⟨_, rfl⟩ := pInternalWrite_eq_ok.mp sent
  have small : chain.size ≤ 1024 * 1024 := by
    by_contra big
    rw [bodyBuffer, BufferChain.amalgamate_error built (Nat.lt_of_not_le big)] at amalgamated
    cases amalgamated
  obtain ⟨whole, again, _, contents⟩ := BufferChain.amalgamate_ok built small
  obtain rfl : whole = body := Except.ok.inj (again.symm.trans amalgamated)
  refine ⟨?_, contents, small⟩
  rw [pSetContentLength, whole.contents_length]

theorem asyncWriteChain_exists {request : MessageBase} {chain : BufferChain} (built : chain.Built)
    (small : chain.size ≤ 1024 * 1024)
    (head : ((request.setHeader HeaderFields.contentLength (decimal chain.size)).headPieces
      methodStr).flatten.length ≤ 1024 * 1024) :
    ∃ written, asyncWriteChain methodStr request chain = .ok written := by
  obtain ⟨body, amalgamated, _, contents⟩ := BufferChain.amalgamate_ok built small
  have size : body.size = chain.size := by
    rw [ContigBuffer.size_of_contents contents, ← built.size]
    rfl
  have fits : ((pSetContentLength request body).headPieces methodStr).flatten.length ≤
      1024 * 1024 := by
    rw [pSetContentLength, size]
    exact head
  rw [← asyncWrite_chain]
  exact ⟨_, asyncWrite_eq_ok.mpr ⟨body, amalgamated, pInternalWrite_eq_ok.mpr ⟨fits, rfl⟩⟩⟩

/-- The first `Content-Length` is overwritten, the others stay. -/
theorem lengths_iff (request : MessageBase) (length : Nat) :
    (∀ field ∈ KeyedList.named (.ofText HeaderFields.contentLength)
        (request.setHeader HeaderFields.contentLength (decimal length)).fields,
      Numeral field.value length) ↔
    ∀ field ∈ (KeyedList.named (.ofText HeaderFields.contentLength) request.fields).tail,
      Numeral field.value length := by
  rw [MessageBase.fields_setHeader, trim_decimal, KeyedList.named_put, List.forall_mem_cons]
  exact and_iff_right (decimal_numeral length)

/-- What goes to the socket is the head, with the length of the body in it, and
the documented body, exactly when that body can be made contiguous (or there is
none, for the overload without one), the head fits in a buffer and further
`Content-Length` fields of the request say the same. -/
theorem async_write_sends_iff (request : MessageBase) (call : WriteCall) :
    (∃ written, asyncWrite methodStr request call = .ok written ∧
      written.body = call.documentedBody request ∧
      written.head = ((request.setHeader HeaderFields.contentLength
        (decimal written.body.length)).headPieces methodStr).flatten ∧
      ∀ field ∈ KeyedList.named (.ofText HeaderFields.contentLength)
          (request.setHeader HeaderFields.contentLength (decimal written.body.length)).fields,
        Numeral field.value written.body.length) ↔
    call.Sendable request ∧
      ((request.setHeader HeaderFields.contentLength
        (decimal (call.documentedBody request).length)).headPieces methodStr).flatten.length ≤
          1024 * 1024 ∧
      ∀ field ∈ (KeyedList.named (.ofText HeaderFields.contentLength) request.fields).tail,
        Numeral field.value (call.documentedBody request).length := by
  rw [← bodyBuffer_iff]
  constructor
  · intro sent
    obtain ⟨written, done, text, _, lengths⟩ := sent
    obtain ⟨buffer, made, passed⟩ := asyncWrite_eq_ok.mp done
    obtain ⟨small, rfl⟩ := pInternalWrite_eq_ok.mp passed
    rw [pSetContentLength, ContigBuffer.size_of_contents text] at small
    refine ⟨⟨buffer, made, text⟩, small, ?_⟩
    rw [← text]
    exact (lengths_iff request _).mp lengths
  · intro sendable
    obtain ⟨⟨buffer, made, text⟩, small, lengths⟩ := sendable
    have fits : ((pSetContentLength request buffer).headPieces methodStr).flatten.length ≤
        1024 * 1024 := by
      rw [pSetContentLength, ContigBuffer.size_of_contents text]
      exact small
    refine ⟨_, asyncWrite_eq_ok.mpr ⟨buffer, made, pInternalWrite_eq_ok.mpr ⟨fits, rfl⟩⟩, text,
      ?_, ?_⟩
    · dsimp only
      rw [text, pSetContentLength, ContigBuffer.size_of_contents text]
    · dsimp only
      rw [text]
      exact (lengths_iff request _).mpr lengths

/-- A request with the body "abc" attached is sent without it. -/
theorem attached_body_not_sent :
    ∃ chain, BufferChain.ofText (ascii "abc") = .ok chain ∧
      ∃ written, asyncWrite (fun _ => ascii "POST") (MessageBase.new.setBody chain) .bare =
          .ok written ∧
        written.body ≠ WriteCall.documentedBody (MessageBase.new.setBody chain) .bare :=
  ⟨_, rfl, _, rfl, by decide⟩

end Marvin.Client
