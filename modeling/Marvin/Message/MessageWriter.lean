import Marvin.Http.MessageBase

namespace Marvin.Message

open Marvin.Data Marvin.Buffer Marvin.Http

/-! # The message writer

`marvin/message/message_writer.cpp`.  A write is described by what goes to the
socket when none of its asynchronous writes fails: the serialized head and,
once that is written, the bytes of the body.
-/

structure Written where
  message : MessageBase
  head : Bytes
  body : Bytes
deriving DecidableEq, Repr

structure MessageWriter where
  bodyBufferChain : Option BufferChain
deriving DecidableEq, Repr

namespace MessageWriter

variable (methodStr : HttpMethod → Bytes)

def new : MessageWriter := ⟨none⟩

def fullBody (writer : MessageWriter) : Bytes :=
  match writer.bodyBufferChain with
  | none => []
  | some chain => if chain.size = 0 then [] else chain.asioBytes

def asyncWrite (writer : MessageWriter) (message : MessageBase) : Except Fault Written := do
  let head ← message.serializeHeaders methodStr
  return ⟨message, head.contents, writer.fullBody⟩

def asyncWriteChain (writer : MessageWriter) (message : MessageBase) (chain : BufferChain) :
    Except Fault Written :=
  { writer with bodyBufferChain := some chain }.asyncWrite methodStr message

def asyncWriteBuffer (writer : MessageWriter) (message : MessageBase) (buffer : ContigBuffer) :
    Except Fault Written :=
  { writer with bodyBufferChain := some (BufferChain.empty.pushBack buffer) }.asyncWrite methodStr
    message

variable {methodStr}

theorem asyncWrite_ok {writer : MessageWriter} {message : MessageBase} {written : Written}
    (done : writer.asyncWrite methodStr message = .ok written) :
    written.message = message ∧ written.body = writer.fullBody := by
  obtain ⟨_, _, rest⟩ := exists_ok_of_bind done
  cases rest
  exact ⟨rfl, rfl⟩

theorem asyncWrite_head {writer : MessageWriter} {message : MessageBase} {written : Written}
    (done : writer.asyncWrite methodStr message = .ok written) :
    ∃ head, message.serializeHeaders methodStr = .ok head ∧ written.head = head.contents := by
  obtain ⟨head, serialized, rest⟩ := exists_ok_of_bind done
  cases rest
  exact ⟨head, serialized, rfl⟩

theorem fullBody_tallied {chain : BufferChain} (tallied : chain.Tallied) :
    (MessageWriter.mk (some chain)).fullBody = chain.bytes := by
  simp only [fullBody]
  by_cases none : chain.size = 0
  · have length : chain.bytes.length = 0 := tallied.size.symm.trans none
    rw [if_pos none, List.eq_nil_of_length_eq_zero length]
  · rw [if_neg none]
    exact tallied.asioBytes_eq

theorem fullBody_buffer (buffer : ContigBuffer) :
    (MessageWriter.mk (some (BufferChain.empty.pushBack buffer))).fullBody = buffer.contents := by
  rw [fullBody_tallied (BufferChain.empty_tallied.pushBack buffer), BufferChain.bytes_pushBack]
  rfl

theorem fullBody_chain {chain : BufferChain} (built : chain.Built) :
    (MessageWriter.mk (some chain)).fullBody = chain.toString := by
  rw [fullBody_tallied built.tallied, built.bytes_eq]

end MessageWriter

end Marvin.Message
