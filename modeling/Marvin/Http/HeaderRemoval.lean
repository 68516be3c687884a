import Marvin.Http.HeaderSection

namespace Marvin.Http

open Marvin.Data Marvin.Buffer

/-! # Removing a field

`remove_at_key` erases the first field with the key.  Lists that hold a name
more than once come from the parser, whose overload of `set_at_key` does not
look for the key.
-/

/-- The overload of `set_body` that takes a string. -/
def MessageBase.setBodyText (message : MessageBase) (content : Bytes) :
    Except Fault MessageBase := do
  let chain ← BufferChain.ofText content
  return message.setBody chain

theorem HeaderFields.atKey_spelling (headers : HeaderFields) {spelling key : Bytes}
    (same : toUpper spelling = toUpper key) : headers.atKey spelling = headers.atKey key := by
  have folded : HeaderKey.ofText spelling = .ofText key := Subtype.ext same
  rw [atKey_eq_lookup, atKey_eq_lookup, folded]

theorem HeaderFields.restrict_removeAtKey (headers : HeaderFields) (key : Bytes) :
    KeyedList.restrict (fun other => decide (other ≠ .ofText key))
        (headers.removeAtKey key).fieldsVector =
      KeyedList.restrict (fun other => decide (other ≠ .ofText key)) headers.fieldsVector := by
  rw [removeAtKey_eq_remove]
  exact KeyedList.restrict_remove _ (by simp) _

theorem HeaderFields.removeAtKey_clears_iff (headers : HeaderFields) (key : Bytes) :
    (∀ spelling, toUpper spelling = toUpper key →
        (headers.removeAtKey key).atKey spelling = none) ↔
      (KeyedList.named (.ofText key) headers.fieldsVector).length ≤ 1 := by
  rw [← KeyedList.not_mem_keys_remove_iff, ← removeAtKey_eq_remove, ← KeyedList.lookup_eq_none,
    ← atKey_eq_lookup]
  constructor
  · intro cleared
    exact cleared key rfl
  · intro cleared spelling same
    rw [atKey_spelling _ same, cleared]

theorem MessageBase.setBody_clears_iff (message : MessageBase) (chain : BufferChain) :
    .ofText HeaderFields.transferEncoding ∉ KeyedList.keys (message.setBody chain).fields ↔
      (KeyedList.named (.ofText HeaderFields.transferEncoding) message.fields).length ≤ 1 := by
  have other : HeaderKey.ofText HeaderFields.transferEncoding ≠ .ofText HeaderFields.contentLength := by
    decide
  rw [fields_setBody, KeyedList.mem_keys_put, not_or, KeyedList.not_mem_keys_remove_iff]
  exact and_iff_right other

theorem MessageBase.setBodyText_ok {message after : MessageBase} {content : Bytes}
    (set : message.setBodyText content = .ok after) : ∃ chain, after = message.setBody chain := by
  obtain ⟨chain, _, rest⟩ := exists_ok_of_bind set
  exact ⟨chain, (Except.ok.inj rest).symm⟩

/-- A key is gone after its removal, with the other fields as they were, exactly
when at most one field has it; and `set_body` leaves no `Transfer-Encoding`
exactly when there was at most one. -/
theorem removal_complete_iff (headers : HeaderFields) (key : Bytes) (message : MessageBase)
    (chain : BufferChain) (content : Bytes) :
    (((∀ spelling, toUpper spelling = toUpper key →
          (headers.removeAtKey key).atKey spelling = none) ∧
        KeyedList.restrict (fun other => decide (other ≠ .ofText key))
            (headers.removeAtKey key).fieldsVector =
          KeyedList.restrict (fun other => decide (other ≠ .ofText key)) headers.fieldsVector) ↔
      (KeyedList.named (.ofText key) headers.fieldsVector).length ≤ 1) ∧
    (.ofText HeaderFields.transferEncoding ∉ KeyedList.keys (message.setBody chain).fields ↔
      (KeyedList.named (.ofText HeaderFields.transferEncoding) message.fields).length ≤ 1) ∧
    (∀ after, message.setBodyText content = .ok after →
      (.ofText HeaderFields.transferEncoding ∉ KeyedList.keys after.fields ↔
        (KeyedList.named (.ofText HeaderFields.transferEncoding) message.fields).length ≤ 1)) := by
  refine ⟨?_, message.setBody_clears_iff chain, ?_⟩
  · rw [and_iff_left (headers.restrict_removeAtKey key)]
    exact headers.removeAtKey_clears_iff key
  · intro after set
    obtain ⟨made, rfl⟩ := MessageBase.setBodyText_ok set
    exact message.setBody_clears_iff made

def twoEncodingLines : List HeaderLine :=
  [.whole (ascii "transfer-encoding") (ascii "gzip") (by decide),
    .whole (ascii "transfer-encoding") (ascii "chunked") (by decide),
    .whole (ascii "host") (ascii "h.x") (by decide)]

/-- The second `Transfer-Encoding` field of a parsed request outlives its removal. -/
theorem second_encoding_remains :
    ∃ context, (ParserContext.pInitialize .new).handle
        (headEvents (.request [ascii "/"]) twoEncodingLines (.other 3) 1 1) = .ok context ∧
      (context.message.headers.removeAtKey HeaderFields.transferEncoding).atKey
        HeaderFields.transferEncoding = some (ascii "chunked") ∧
      .ofText HeaderFields.transferEncoding ∈
        KeyedList.keys (context.message.setBody .empty).fields :=
  ⟨_, rfl, by decide, by decide⟩

end Marvin.Http
