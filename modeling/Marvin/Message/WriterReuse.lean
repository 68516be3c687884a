import Marvin.Message.MessageWriter

namespace Marvin.Message

open Marvin.Data Marvin.Buffer Marvin.Http

/-! # A writer used again

The overloads of `MessageWriter::async_write` that take a body store it in
`m_body_buffer_chain_sptr`, and the one without leaves the member as it is.  So
what a call writes depends on the calls before it.
-/

/-- A chain as the rest of the program makes them. -/
abbrev BodyChain := { chain : BufferChain // chain.Tallied }

/-- A call of one of the four overloads.  The pointer to a chain may be null. -/
inductive WriteCall where
  | plain (message : MessageBase)
  | string (message : MessageBase) (body : Bytes)
  | buffer (message : MessageBase) (body : ContigBuffer)
  | chain (message : MessageBase) (body : Option BodyChain)

namespace WriteCall

def msg : WriteCall → MessageBase
  | .plain message => message
  | .string message _ => message
  | .buffer message _ => message
  | .chain message _ => message

def body : WriteCall → Bytes
  | .plain _ => []
  | .string _ body => body
  | .buffer _ body => body.contents
  | .chain _ body => (body.map (fun chain => chain.val.bytes)).getD []

def Stores : WriteCall → Prop
  | .plain _ => False
  | .string _ body => body ≠ []
  | .buffer _ _ => True
  | .chain _ _ => True

instance : DecidablePred Stores
  | .plain _ => .isFalse id
  | .string _ body => inferInstanceAs (Decidable (body ≠ []))
  | .buffer _ _ | .chain _ _ => .isTrue trivial

end WriteCall

namespace MessageWriter

variable (methodStr : HttpMethod → Bytes)

/-- What an overload does to the writer before it calls the one without a body. -/
def store (writer : MessageWriter) : WriteCall → Except Fault MessageWriter
  | .plain _ => return writer
  | .string _ body =>
      if body.length = 0 then return writer
      else do
        let chain ← BufferChain.ofText body
        return { writer with bodyBufferChain := some chain }
  | .buffer _ body => return { writer with bodyBufferChain := some (BufferChain.empty.pushBack body) }
  | .chain _ body => return { writer with bodyBufferChain := body.map Subtype.val }

def write (writer : MessageWriter) (call : WriteCall) : Except Fault (MessageWriter × Written) := do
  let writer ← writer.store call
  let written ← writer.asyncWrite methodStr call.msg
  return (writer, written)

/-- A sequence of calls, each issued when the one before has completed. -/
def writeAll (writer : MessageWriter) : List WriteCall → Except Fault (List Written)
  | [] => return []
  | call :: calls => do
      let (writer, written) ← writer.write methodStr call
      let later ← writeAll writer calls
      return written :: later

/-- What a call puts on the socket is its serialized head and its body. -/
def Carries (call : WriteCall) (written : Written) : Prop :=
  (∃ head, call.msg.serializeHeaders methodStr = .ok head ∧ written.head = head.contents) ∧
    written.body = call.body

/-- No call that stores nothing finds a body left behind. -/
def Cleared (leftover : Bytes) : List WriteCall → Prop
  | [] => True
  | call :: calls =>
      (¬ call.Stores → leftover = []) ∧
        Cleared (if call.Stores then call.body else leftover) calls

instance Cleared.decidable : (leftover : Bytes) → (calls : List WriteCall) →
    Decidable (Cleared leftover calls)
  | _, [] => .isTrue trivial
  | leftover, call :: calls =>
      have := Cleared.decidable (if call.Stores then call.body else leftover) calls
      inferInstanceAs (Decidable ((¬ call.Stores → leftover = []) ∧ _))

variable {methodStr}

theorem store_fullBody {writer next : MessageWriter} {call : WriteCall}
    (stored : writer.store call = .ok next) :
    next.fullBody = if call.Stores then call.body else writer.fullBody := by
  cases call with
  | plain message =>
      cases stored
      rfl
  | string message body =>
      by_cases none : body = []
      · subst none
        cases stored
        rfl
      · have some : body.length ≠ 0 := fun empty => none (List.eq_nil_of_length_eq_zero empty)
        simp only [store, if_neg some] at stored
        obtain ⟨chain, made, rest⟩ := exists_ok_of_bind stored
        cases rest
        obtain ⟨tallied, text⟩ := BufferChain.ofText_tallied made
        rw [fullBody_tallied tallied, text,
          if_pos (show (WriteCall.string message body).Stores from none)]
        rfl
  | buffer message body =>
      cases stored
      exact fullBody_buffer body
  | chain message body =>
      cases stored
      cases body with
      | none => rfl
      | some chain => exact fullBody_tallied chain.property

theorem body_of_not_stores {call : WriteCall} (idle : ¬ call.Stores) : call.body = [] := by
  cases call with
  | plain message => rfl
  | string message body => exact not_not.mp idle
  | buffer | chain => exact absurd trivial idle

theorem write_ok {writer next : MessageWriter} {call : WriteCall} {written : Written}
    (done : writer.write methodStr call = .ok (next, written)) :
    next.fullBody = (if call.Stores then call.body else writer.fullBody) ∧
      written.body = next.fullBody ∧
      ∃ head, call.msg.serializeHeaders methodStr = .ok head ∧ written.head = head.contents := by
  obtain ⟨_, stored, sending⟩ := exists_ok_of_bind done
  obtain ⟨_, sent, rest⟩ := exists_ok_of_bind sending
  cases rest
  exact ⟨store_fullBody stored, (asyncWrite_ok sent).2, asyncWrite_head sent⟩

/-- A call carries its own body exactly when it stores one, or none is left. -/
theorem write_carries_iff {writer next : MessageWriter} {call : WriteCall} {written : Written}
    (done : writer.write methodStr call = .ok (next, written)) :
    Carries methodStr call written ↔ (¬ call.Stores → writer.fullBody = []) := by
  obtain ⟨kept, sent, head⟩ := write_ok done
  rw [Carries, and_iff_right head, sent, kept]
  by_cases stores : call.Stores
  · simp [stores]
  · simp [stores, body_of_not_stores stores]

theorem writeAll_carries_iff {writer : MessageWriter} {calls : List WriteCall}
    {written : List Written} (done : writer.writeAll methodStr calls = .ok written) :
    List.Forall₂ (Carries methodStr) calls written ↔ Cleared writer.fullBody calls := by
  induction calls generalizing writer written with
  | nil =>
      cases done
      exact iff_of_true .nil trivial
  | cons call calls ih =>
      obtain ⟨⟨next, sent⟩, first, remaining⟩ := exists_ok_of_bind done
      obtain ⟨later, rest, made⟩ := exists_ok_of_bind remaining
      cases made
      rw [List.forall₂_cons, write_carries_iff first, ih rest, (write_ok first).1]
      rfl

/-- Over any sequence of calls on a new writer, every call writes its head and
its own body exactly when no call without a body comes while a body is left from
the last call that passed one. -/
theorem calls_carry_bodies_iff {calls : List WriteCall} {written : List Written}
    (done : new.writeAll methodStr calls = .ok written) :
    List.Forall₂ (Carries methodStr) calls written ↔ Cleared [] calls :=
  writeAll_carries_iff done

theorem write_exists {writer next : MessageWriter} {call : WriteCall}
    (stored : writer.store call = .ok next)
    (small : (call.msg.headPieces methodStr).flatten.length ≤ 1024 * 1024) :
    ∃ written, writer.write methodStr call = .ok (next, written) := by
  obtain ⟨head, serialized, _⟩ := MessageBase.serializeHeaders_ok small
  refine ⟨⟨call.msg, head.contents, next.fullBody⟩, ?_⟩
  simp only [write, stored, asyncWrite, serialized, bind, Except.bind]
  rfl

theorem writeAll_cons_exists {writer next : MessageWriter} {call : WriteCall}
    {calls : List WriteCall} (stored : writer.store call = .ok next)
    (small : (call.msg.headPieces methodStr).flatten.length ≤ 1024 * 1024)
    (later : ∃ written, next.writeAll methodStr calls = .ok written) :
    ∃ written, writer.writeAll methodStr (call :: calls) = .ok written := by
  obtain ⟨first, sent⟩ := write_exists stored small
  obtain ⟨rest, done⟩ := later
  exact ⟨first :: rest, by simp only [writeAll, sent, done, bind, Except.bind]; rfl⟩

def rootRequest : MessageBase :=
  (MessageBase.new.setMethod (some (.other 1))).setTarget (ascii "/")

def clearedCalls : List WriteCall :=
  [.string rootRequest (ascii "abc"), .chain rootRequest none, .plain rootRequest]

theorem cleared_calls_carried :
    ∃ written, new.writeAll (fun _ => ascii "GET") clearedCalls = .ok written ∧
      List.Forall₂ (Carries (fun _ => ascii "GET")) clearedCalls written := by
  obtain ⟨written, done⟩ : ∃ written,
      new.writeAll (fun _ => ascii "GET") clearedCalls = .ok written :=
    writeAll_cons_exists rfl (by decide) <| writeAll_cons_exists rfl (by decide) <|
      writeAll_cons_exists rfl (by decide) ⟨[], rfl⟩
  exact ⟨written, done, (calls_carry_bodies_iff done).mpr (by decide)⟩

/-- The second of two messages is written with the body of the first. -/
theorem body_written_again :
    ∃ written, new.writeAll (fun _ => ascii "GET")
        [.string rootRequest (ascii "abc"), .plain rootRequest] = .ok written ∧
      ¬ List.Forall₂ (Carries (fun _ => ascii "GET"))
        [.string rootRequest (ascii "abc"), .plain rootRequest] written := by
  obtain ⟨written, done⟩ : ∃ written, new.writeAll (fun _ => ascii "GET")
      [.string rootRequest (ascii "abc"), .plain rootRequest] = .ok written :=
    writeAll_cons_exists rfl (by decide) <| writeAll_cons_exists rfl (by decide) ⟨[], rfl⟩
  refine ⟨written, done, ?_⟩
  rw [writeAll_carries_iff done]
  decide

end MessageWriter

end Marvin.Message
