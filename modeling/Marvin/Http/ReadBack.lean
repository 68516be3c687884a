import Marvin.Http.RoundTrip

namespace Marvin.Http

open Marvin.Data Marvin.Buffer

/-! # Messages that are read back

Any message with one field for each of its names, and a `Content-Length` that is
the size of its body, is one that the setters could have made.  So it is read back
from the bytes it is written as.
-/

/-- A field that can stand on a line of its own and be read from it. -/
structure Field.Ordinary (field : Field) : Prop where
  named : field.key.val ≠ []
  token : field.key.val.all isTokenByte = true
  inlined : Inline field.value
  trimmed : trim field.value = field.value

instance (field : Field) : Decidable (Field.Ordinary field) :=
  decidable_of_iff (field.key.val ≠ [] ∧ field.key.val.all isTokenByte = true ∧
    Inline field.value ∧ trim field.value = field.value)
    ⟨fun held => ⟨held.1, held.2.1, held.2.2.1, held.2.2.2⟩,
      fun field => ⟨field.named, field.token, field.inlined, field.trimmed⟩⟩

theorem ordinary_fixed {name value : Bytes}
    (checked : toUpper name ≠ [] ∧ (toUpper name).all isTokenByte = true ∧ Inline value ∧
      trim value = value) : Field.Ordinary ⟨.ofText name, value⟩ :=
  ⟨checked.1, checked.2.1, checked.2.2.1, checked.2.2.2⟩

theorem ordinary_contentLength (number : Nat) :
    Field.Ordinary ⟨.ofText HeaderFields.contentLength, decimal number⟩ := by
  have solid := decimal_solid number
  refine ordinary_fixed ⟨by decide, by decide, ⟨fun member => ?_, fun member => ?_⟩,
    trim_decimal number⟩
  · exact absurd (solid _ member) (by decide)
  · exact absurd (solid _ member) (by decide)

structure MessageBase.Legible (message : MessageBase) (opening : Opening) : Prop where
  opens : opening.Opens message
  ordinary : opening.Ordinary
  major : message.httpMajor = 1
  minor : message.httpMinor = 0 ∨ message.httpMinor = 1
  distinct : (KeyedList.keys message.fields).Nodup
  fields : ∀ field ∈ message.fields, Field.Ordinary field
  unencoded : .ofText HeaderFields.transferEncoding ∉ KeyedList.keys message.fields
  counted : message.header HeaderFields.contentLength = some (decimal message.body.size)
  tallied : message.body.Tallied

namespace MessageBase

/-- A message that begins as given, by the grammar of HTTP. -/
def text (message : MessageBase) (methodStr : HttpMethod → Bytes) (opening : Opening) : Bytes :=
  headText methodStr opening message.httpMinor message.fields ++ message.body.bytes

/-- The callbacks http_parser makes for the text of a message. -/
def callbacks (message : MessageBase) (opening : Opening) (leftover : HttpMethod) : List Event :=
  .messageBegin :: opening.startLine.events ++
    message.fields.flatMap
      (fun field => [.headerField field.key.val, .headerValue (field.value.dropWhile isBlank)]) ++
    [.headersComplete (opening.reportedMethod leftover) 1 message.httpMinor] ++
    (if message.body.bytes = [] then [] else [.body message.body.bytes]) ++ [.messageComplete]

end MessageBase

theorem setHeaders_fields {fields : List Field}
    (trimmed : ∀ field ∈ fields, trim field.value = field.value)
    (message : MessageBase) :
    ((fields.map fun field => (field.key.val, field.value)).foldl
      (fun message line => message.setHeader line.1 line.2) message).fields =
        KeyedList.putAll message.fields fields := by
  induction fields generalizing message with
  | nil => rfl
  | cons field rest ih =>
      rw [List.map_cons, List.foldl_cons,
        ih (fun other member => trimmed other (List.mem_cons_of_mem _ member)),
        MessageBase.fields_setHeader, trimmed field List.mem_cons_self, HeaderKey.ofText_val]
      rfl

namespace MessageBase.Legible

variable {message : MessageBase} {opening : Opening} (legible : message.Legible opening)

def draft : Draft where
  opening := opening
  minor := message.httpMinor
  lines := message.fields.map fun field => (field.key.val, field.value)
  body := message.body
  ordinary := legible.ordinary
  version := legible.minor
  named line member := by
    obtain ⟨field, listed, rfl⟩ := List.mem_map.mp member
    exact ⟨(legible.fields field listed).named, (legible.fields field listed).token⟩
  inlined line member := by
    obtain ⟨field, listed, rfl⟩ := List.mem_map.mp member
    exact (legible.fields field listed).inlined
  unencoded line member := by
    obtain ⟨field, listed, rfl⟩ := List.mem_map.mp member
    intro same
    apply legible.unencoded
    have key : HeaderKey.ofText HeaderFields.transferEncoding = field.key := by
      apply Subtype.ext
      have folded : toUpper field.key.val = HeaderFields.transferEncoding := same
      rw [← field.key.property, folded]
      decide
    rw [key]
    exact List.mem_map_of_mem listed
  tallied := legible.tallied

include legible

theorem draft_fields : legible.draft.message.fields = message.fields := by
  have trimmed : ∀ field ∈ message.fields, trim field.value = field.value :=
    fun field member => (legible.fields field member).trimmed
  have bare : (opening.applyTo (MessageBase.new.setVersion 1 message.httpMinor)).fields = [] := by
    cases opening <;> rfl
  have whole : KeyedList.putAll [] message.fields = message.fields :=
    KeyedList.putAll_nil_eq_iff.mpr legible.distinct
  have unencoded : KeyedList.remove (.ofText HeaderFields.transferEncoding) message.fields =
      message.fields := by
    rw [KeyedList.remove, List.eraseP_of_forall_not]
    intro field member same
    exact legible.unencoded (of_decide_eq_true same ▸ List.mem_map_of_mem member)
  have counted := legible.counted
  rw [MessageBase.header_eq_lookup] at counted
  change (MessageBase.setBody ((message.fields.map fun field => (field.key.val, field.value)).foldl
    (fun message line => message.setHeader line.1 line.2)
    (opening.applyTo (MessageBase.new.setVersion 1 message.httpMinor))) message.body).fields = _
  rw [MessageBase.fields_setBody, setHeaders_fields trimmed, bare, whole, unencoded,
    KeyedList.put_of_lookup counted]

theorem draft_callbacks (leftover : HttpMethod) :
    legible.draft.callbacks leftover = message.callbacks opening leftover := by
  rw [Draft.callbacks, legible.draft_fields]
  rfl

/-- A legible message is read back from what it is written as. -/
theorem read_back {σ : Type} {http : HttpParser σ} (stopping : http.Stopping)
    (splitting : http.Splitting) {methodStr : HttpMethod → Bytes} (leftover : HttpMethod)
    (recognized : Draft.Recognized http (message.text methodStr opening)
      (message.callbacks opening leftover))
    {segments : List Bytes} (some : ∀ segment ∈ segments, segment ≠ [])
    (cut : segments.flatten = (message.headPieces methodStr).flatten ++ message.body.bytes)
    (bodyFits : ∀ piece, .body piece ∈ http.reports http.init segments →
      piece.length + 100 ≤ 1024 * 1024) :
    ∃ parser early, (∀ value ∈ early, Parser.Onward value) ∧
      (∀ fuel, (Parser.begin http .new).consumeAll http (fuel + 1) segments =
        .ok (parser, early ++ [⟨.endOfMessage, 0⟩])) ∧
      (∃ events, (ParserContext.pInitialize .new).handle events = .ok parser.context) ∧
      parser.context.message.Agrees message := by
  rw [headPieces_renders legible.opens legible.minor methodStr] at cut
  rw [MessageBase.text, ← cut, ← legible.draft_callbacks] at recognized
  obtain ⟨parser, early, onward, consumed, handled, opens, major, minor, fields, body⟩ :=
    legible.draft.delivered stopping splitting leftover some recognized bodyFits
  obtain ⟨flag, request, response⟩ := opens.agree legible.opens
  exact ⟨parser, early, onward, consumed, handled, flag, request, response,
    ⟨major.trans legible.major.symm, minor⟩, fields.trans legible.draft_fields, body⟩

end MessageBase.Legible

theorem scripted_recognized {script : Script} (some : script ≠ []) :
    Draft.Recognized (scripted [script]) (script.map ScriptByte.byte)
      (coalesce (script.reports ++ [.messageComplete])) := by
  have run := scripted_execute_script some
  refine ⟨⟨?_, ?_, ?_⟩, ?_⟩
  · simpa using some
  · rw [run]
    rfl
  · rw [run, List.length_map]
  · rw [run]

/-- A header line, with a callback for the start of its value. -/
def Script.line (name value : Bytes) : Script :=
  data .headerField name ++ closing (ascii ": ") (.headerValue []) ++ data .headerValue value ++
    silent (ascii "\r\n")

end Marvin.Http
