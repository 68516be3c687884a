import Marvin.Http.HeadSize
import Marvin.Http.HeaderSection
import Marvin.Http.ScriptedEnd
import Marvin.Http.Segments

namespace Marvin.Http

open Marvin.Data Marvin.Buffer

/-! # Encoding and decoding

A message that is put together through the setters of `MessageBase`, written by
`serialize_headers` followed by its body, and read back by `Parser` in any
segmentation.
-/

def isTokenByte (byte : UInt8) : Bool :=
  (48 ≤ byte && byte ≤ 57) || (65 ≤ byte && byte ≤ 90) || (97 ≤ byte && byte ≤ 122) ||
    byte ∈ ascii "!#$%&'*+-.^_`|~"

/-- The characters that http_parser skips before a header value. -/
def isBlank (byte : UInt8) : Bool :=
  byte == 32 || byte == 9

/-- A text that may stand inside a line. -/
def Inline (text : Bytes) : Prop :=
  13 ∉ text ∧ 10 ∉ text

instance (text : Bytes) : Decidable (Inline text) :=
  inferInstanceAs (Decidable (_ ∧ _))

inductive Opening where
  | request (method : HttpMethod) (target : Bytes)
  | response (code : Nat) (reason : Bytes)

namespace Opening

def Ordinary : Opening → Prop
  | .request method target =>
      method ≠ .connect ∧ target ≠ [] ∧ ∀ byte ∈ target, 32 < byte ∧ byte ≠ 127
  | .response code reason => 100 ≤ code ∧ code ≤ 999 ∧ Inline reason

def applyTo (message : MessageBase) : Opening → MessageBase
  | .request method target => (message.setMethod (some method)).setTarget target
  | .response code reason => (message.setStatusCode (some code)).setReason reason

def Opens (message : MessageBase) : Opening → Prop
  | .request method target =>
      message.isRequest = true ∧ message.method = some method ∧ message.target = target
  | .response code reason =>
      message.isRequest = false ∧ message.statusCode = some code ∧ message.reason = reason

def startLine : Opening → StartLine
  | .request _ target => .request [target]
  | .response code reason => .response code [reason]

/-- The method http_parser holds at the end of the head; in a response it is
whatever the C parser has in that field. -/
def reportedMethod (leftover : HttpMethod) : Opening → HttpMethod
  | .request method _ => method
  | .response _ _ => leftover

/-- The first line of a message, by the grammar of HTTP. -/
def line (methodStr : HttpMethod → Bytes) (minor : Nat) : Opening → Bytes
  | .request method target =>
      methodStr method ++ ascii " " ++ target ++ ascii " HTTP/1." ++ decimal minor ++ ascii "\r\n"
  | .response code reason =>
      ascii "HTTP/1." ++ decimal minor ++ ascii " " ++ decimal code ++ ascii " " ++ reason ++
        ascii "\r\n"

end Opening

/-- The head of a message: its first line, a line for each field and an empty line. -/
def headText (methodStr : HttpMethod → Bytes) (opening : Opening) (minor : Nat)
    (fields : List Field) : Bytes :=
  opening.line methodStr minor ++
    fields.flatMap (fun field => field.key.val ++ ascii ": " ++ field.value ++ ascii "\r\n") ++
    ascii "\r\n"

/-- `serialize_headers` writes the head by the grammar. -/
theorem headPieces_renders {message : MessageBase} {opening : Opening}
    (opens : opening.Opens message) (minor : message.httpMinor = 0 ∨ message.httpMinor = 1)
    (methodStr : HttpMethod → Bytes) :
    (message.headPieces methodStr).flatten =
      headText methodStr opening message.httpMinor message.fields := by
  have lines : ((message.fields.map MessageBase.headerLine).flatten).flatten =
      message.fields.flatMap
        (fun field => field.key.val ++ ascii ": " ++ field.value ++ ascii "\r\n") := by
    induction message.fields with
    | nil => rfl
    | cons field rest ih =>
        rw [List.map_cons, List.flatten_cons, List.flatten_append, ih, List.flatMap_cons,
          MessageBase.headerLine]
        simp
  have zero : decimal 0 = ascii "0" := by decide
  have one : decimal 1 = ascii "1" := by decide
  rw [MessageBase.headPieces, headText, List.flatten_append, List.flatten_append, lines]
  refine congrArg₂ (· ++ ·) (congrArg (· ++ _) ?_) (List.flatten_singleton)
  cases opening with
  | request method target =>
      obtain ⟨kind, verb, path⟩ := opens
      rw [kind, verb, path, if_pos rfl]
      rcases minor with old | new
      · rw [old, if_pos rfl, Opening.line, zero]
        simp [ascii]
      · rw [new, if_neg Nat.one_ne_zero, Opening.line, one]
        simp [ascii]
  | response code reason =>
      obtain ⟨kind, status, said⟩ := opens
      rw [kind, status, said, if_neg Bool.false_ne_true]
      rcases minor with old | new
      · rw [old, if_pos rfl, Opening.line, zero]
        simp [ascii]
      · rw [new, if_neg Nat.one_ne_zero, Opening.line, one]
        simp [ascii]

/-- A message to be sent: what its setters are called with, the body last. -/
structure Draft where
  opening : Opening
  minor : Nat
  lines : List (Bytes × Bytes)
  body : BufferChain
  ordinary : opening.Ordinary
  version : minor = 0 ∨ minor = 1
  named : ∀ line ∈ lines, line.1 ≠ [] ∧ line.1.all isTokenByte
  inlined : ∀ line ∈ lines, Inline line.2
  unencoded : ∀ line ∈ lines, toUpper line.1 ≠ HeaderFields.transferEncoding
  tallied : body.Tallied

namespace Draft

variable (draft : Draft)

def message : MessageBase :=
  (draft.lines.foldl (fun message line => message.setHeader line.1 line.2)
    (draft.opening.applyTo (MessageBase.new.setVersion 1 draft.minor))).setBody draft.body

def head (methodStr : HttpMethod → Bytes) : Bytes :=
  headText methodStr draft.opening draft.minor draft.message.fields

def text (methodStr : HttpMethod → Bytes) : Bytes :=
  draft.head methodStr ++ draft.body.bytes

/-- The callbacks http_parser makes for the text: its start line, every
header name and value, the value without the blanks before it, the end of the
head, the body if there is one, and the end of the message. -/
def callbacks (leftover : HttpMethod) : List Event :=
  .messageBegin :: draft.opening.startLine.events ++
    draft.message.fields.flatMap
      (fun field => [.headerField field.key.val, .headerValue (field.value.dropWhile isBlank)]) ++
    [.headersComplete (draft.opening.reportedMethod leftover) 1 draft.minor] ++
    (if draft.body.bytes = [] then [] else [.body draft.body.bytes]) ++ [.messageComplete]

end Draft

theorem dropWhile_isBlank {text : Bytes} (trimmed : trim text = text) :
    text.dropWhile isBlank = text := by
  cases text with
  | nil => rfl
  | cons byte rest =>
      have solid : isSpace byte = false := by
        by_contra space
        have shorter : (trim (byte :: rest)).length ≤ rest.length := by
          rw [trim, List.dropWhile_cons, if_pos (by simpa using space)]
          exact trim_length_le rest
        rw [trimmed, List.length_cons] at shorter
        omega
      have dark : isBlank byte = false := by
        simp only [isSpace, isBlank, Bool.or_eq_false_iff] at solid ⊢
        refine ⟨solid.1, ?_⟩
        have apart := solid.2
        rw [beq_eq_false_iff_ne]
        intro same
        subst same
        cases apart
      rw [List.dropWhile_cons, dark]
      rfl

/-- Every message that is made through `header(key, value)` has distinct names,
none of them empty, and values without white space at their ends. -/
structure Tidy (fields : List Field) : Prop where
  distinct : (KeyedList.keys fields).Nodup
  named : ∀ field ∈ fields, field.key.val ≠ []
  trimmed : ∀ field ∈ fields, trim field.value = field.value

theorem Tidy.put {fields : List Field} (tidy : Tidy fields) {key : HeaderKey} {value : Bytes}
    (named : key.val ≠ []) (trimmed : trim value = value) :
    Tidy (KeyedList.put key value fields) := by
  refine ⟨KeyedList.nodup_keys_put tidy.distinct, fun field member => ?_, fun field member => ?_⟩
  · rcases KeyedList.mem_put member with rfl | earlier
    · exact named
    · exact tidy.named field earlier
  · rcases KeyedList.mem_put member with rfl | earlier
    · exact trimmed
    · exact tidy.trimmed field earlier

theorem Tidy.remove {fields : List Field} (tidy : Tidy fields) (key : HeaderKey) :
    Tidy (KeyedList.remove key fields) :=
  ⟨KeyedList.nodup_keys_remove tidy.distinct,
    fun field member => tidy.named field (List.mem_of_mem_eraseP member),
    fun field member => tidy.trimmed field (List.mem_of_mem_eraseP member)⟩

theorem tidy_setHeaders {lines : List (Bytes × Bytes)} (named : ∀ line ∈ lines, line.1 ≠ [])
    {message : MessageBase} (tidy : Tidy message.fields) :
    Tidy (lines.foldl (fun message line => message.setHeader line.1 line.2) message).fields := by
  induction lines generalizing message with
  | nil => exact tidy
  | cons line rest ih =>
      apply ih (fun line member => named line (List.mem_cons_of_mem _ member))
      rw [MessageBase.fields_setHeader]
      refine tidy.put ?_ (trim_idem line.2)
      have given := named line List.mem_cons_self
      simpa [HeaderKey.ofText, toUpper] using given

namespace Draft

variable (draft : Draft)

theorem message_tidy : Tidy draft.message.fields := by
  have start : Tidy (draft.opening.applyTo (MessageBase.new.setVersion 1 draft.minor)).fields := by
    have none : (draft.opening.applyTo (MessageBase.new.setVersion 1 draft.minor)).fields = [] := by
      cases draft.opening <;> rfl
    rw [none]
    exact ⟨List.nodup_nil, nofun, nofun⟩
  rw [message, MessageBase.fields_setBody]
  exact ((tidy_setHeaders (fun line member => (draft.named line member).1) start).remove _).put
    (by decide) (trim_decimal _)

end Draft

theorem exists_lines {fields : List Field} (named : ∀ field ∈ fields, field.key.val ≠ [])
    (trimmed : ∀ field ∈ fields, trim field.value = field.value) :
    ∃ lines : List HeaderLine, lines.map HeaderLine.field = fields ∧
      lines.flatMap HeaderLine.events = fields.flatMap (fun field =>
        [.headerField field.key.val, .headerValue (field.value.dropWhile isBlank)]) := by
  induction fields with
  | nil => exact ⟨[], rfl, rfl⟩
  | cons field rest ih =>
      obtain ⟨lines, same, events⟩ := ih
        (fun field member => named field (List.mem_cons_of_mem _ member))
        (fun field member => trimmed field (List.mem_cons_of_mem _ member))
      have bare : field.value.dropWhile isBlank = field.value :=
        dropWhile_isBlank (trimmed field List.mem_cons_self)
      refine ⟨.whole field.key.val field.value (named field List.mem_cons_self) :: lines, ?_, ?_⟩
      · rw [List.map_cons, same]
        simp [HeaderLine.field, HeaderLine.whole, HeaderLine.key, HeaderLine.name, HeaderLine.value]
      · rw [List.flatMap_cons, List.flatMap_cons, events, bare]
        rfl

theorem filed_eq {lines : List HeaderLine} (tidy : Tidy (lines.map HeaderLine.field)) :
    (match lines.getLast? with
      | none => []
      | some last =>
          KeyedList.put last.key (trim last.value) (lines.dropLast.map HeaderLine.field)) =
      lines.map HeaderLine.field := by
  rcases List.eq_nil_or_concat lines with none | ⟨front, last, rfl⟩
  · subst none
    rfl
  · rw [List.concat_eq_append] at tidy ⊢
    have fresh : last.key ∉ KeyedList.keys (front.map HeaderLine.field) := by
      have apart := tidy.distinct
      rw [List.map_append, KeyedList.keys_append, List.nodup_append] at apart
      intro member
      exact apart.2.2 _ member last.key (by simp [KeyedList.keys, HeaderLine.field]) rfl
    have bare : trim last.value = last.value :=
      tidy.trimmed last.field (by simp)
    simp [bare, KeyedList.put_of_not_mem fresh, HeaderLine.field]

namespace ParserContext

/-- What the header callbacks leave alone. -/
structure SameStart (before after : ParserContext) : Prop where
  url : after.urlStringbuf = before.urlStringbuf
  status : after.statusStringbuf = before.statusStringbuf
  message : { after.message with headers := before.message.headers } = before.message

theorem SameStart.refl (context : ParserContext) : context.SameStart context := ⟨rfl, rfl, rfl⟩

theorem SameStart.trans {first second third : ParserContext} (left : first.SameStart second)
    (right : second.SameStart third) : first.SameStart third := by
  refine ⟨right.url.trans left.url, right.status.trans left.status, ?_⟩
  have inner := right.message
  have outer := left.message
  rw [← inner] at outer
  exact outer

theorem commitLine_sameStart (context : ParserContext) : context.SameStart context.commitLine := by
  unfold commitLine
  split
  · exact ⟨rfl, rfl, rfl⟩
  · exact .refl context

theorem commitLastLine_sameStart (context : ParserContext) :
    context.SameStart context.commitLastLine := by
  unfold commitLastLine
  split
  · exact ⟨rfl, rfl, rfl⟩
  · exact .refl context

theorem pend_sameStart (context : ParserContext) (line : HeaderLine) :
    context.SameStart (context.pend line) :=
  context.commitLine_sameStart.trans ⟨rfl, rfl, rfl⟩

theorem handle_lines_sameStart {context after : ParserContext} {lines : List HeaderLine}
    (outside : context.headerState ≠ .field)
    (handled : context.handle (lines.flatMap HeaderLine.events) = .ok after) :
    context.SameStart after := by
  induction lines generalizing context with
  | nil =>
      obtain rfl : context = after := by simpa using handled
      exact .refl context
  | cons line rest ih =>
      rw [List.flatMap_cons, handle_append_of_ok (handle_line outside line)] at handled
      exact (context.pend_sameStart line).trans
        (ih (show (context.pend line).headerState ≠ .field from HeaderState.noConfusion) handled)

theorem handle_startLine (opening : Opening) :
    ∃ begun, (pInitialize .new).handle (.messageBegin :: opening.startLine.events) = .ok begun ∧
      begun.headerState = .nothing ∧
      match opening with
      | .request _ target =>
          begun.urlStringbuf = target ∧ begun.statusStringbuf = [] ∧ begun.message = .new
      | .response code reason =>
          begun.urlStringbuf = [] ∧ begun.statusStringbuf = reason ∧
            begun.message = MessageBase.new.setStatusCode (some code) := by
  cases opening with
  | request method target => exact ⟨_, rfl, rfl, rfl, rfl, rfl⟩
  | response code reason => exact ⟨_, rfl, rfl, rfl, rfl, rfl⟩

theorem handle_head_opened {opening : Opening} (ordinary : opening.Ordinary) (leftover : HttpMethod)
    {lines : List HeaderLine} {minor : Nat} {final : ParserContext}
    (handled : (pInitialize .new).handle (headEvents opening.startLine lines
      (opening.reportedMethod leftover) 1 minor) = .ok final) :
    opening.Opens final.message ∧ final.message.httpMajor = 1 ∧
      final.message.httpMinor = minor := by
  obtain ⟨begun, started, state, texts⟩ := handle_startLine opening
  have outside : begun.headerState ≠ .field := by
    rw [state]
    exact HeaderState.noConfusion
  rw [headEvents, List.append_assoc, handle_append_of_ok started] at handled
  obtain ⟨filed, listed, handled⟩ := handle_append_ok handled
  obtain rfl := Except.ok.inj handled
  have kept := (handle_lines_sameStart outside listed).trans filed.commitLastLine_sameStart
  cases opening with
  | request method target =>
      obtain ⟨url, status, _⟩ := texts
      have held : filed.commitLastLine.urlStringbuf = target := kept.url.trans url
      have none : filed.commitLastLine.statusStringbuf = [] := kept.status.trans status
      simp [onHeadersComplete, held, none, ordinary.2.1, Opening.Opens, Opening.reportedMethod,
        MessageBase.setTarget, MessageBase.setMethod, MessageBase.setVersion]
  | response code reason =>
      obtain ⟨url, status, message⟩ := texts
      have none : filed.commitLastLine.urlStringbuf = [] := kept.url.trans url
      have held : filed.commitLastLine.statusStringbuf = reason := kept.status.trans status
      have opened := kept.message.trans message
      have flag := congrArg MessageBase.isRequest opened
      have number := congrArg MessageBase.statusCode opened
      have empty := congrArg MessageBase.reason opened
      simp only [MessageBase.setStatusCode] at flag number empty
      by_cases unsaid : reason = []
      · simp [onHeadersComplete, none, held, unsaid, Opening.Opens, flag, number, empty,
          MessageBase.setVersion, MessageBase.new]
      · simp [onHeadersComplete, none, held, unsaid, Opening.Opens, number,
          MessageBase.setVersion, MessageBase.setReason]

end ParserContext

theorem body_not_mem_headEvents (start : StartLine) (lines : List HeaderLine) (method : HttpMethod)
    (major minor : Nat) (piece : Bytes) :
    .body piece ∉ headEvents start lines method major minor := by
  cases start <;> simp [headEvents, StartLine.events, HeaderLine.events]

theorem withoutBody_eq_self {events : List Event} (other : ∀ piece, .body piece ∉ events) :
    withoutBody events = events := by
  rw [withoutBody, List.filter_eq_self]
  intro event member
  cases event with
  | body piece => exact absurd member (other piece)
  | _ => rfl

theorem bodyBytes_eq_nil {events : List Event} (other : ∀ piece, .body piece ∉ events) :
    bodyBytes events = [] := by
  rw [bodyBytes, List.flatten_eq_nil_iff]
  intro bytes member
  obtain ⟨event, present, rfl⟩ := List.mem_map.mp member
  cases event with
  | body piece => exact absurd present (other piece)
  | _ => rfl

namespace MessageBase

structure Agrees (decoded original : MessageBase) : Prop where
  isRequest : decoded.isRequest = original.isRequest
  request : original.isRequest = true →
    decoded.method = original.method ∧ decoded.target = original.target
  response : original.isRequest = false →
    decoded.statusCode = original.statusCode ∧ decoded.reason = original.reason
  version : decoded.httpMajor = original.httpMajor ∧ decoded.httpMinor = original.httpMinor
  fields : decoded.fields = original.fields
  body : decoded.body.bytes = original.body.bytes

end MessageBase

theorem Opening.Opens.agree {opening : Opening} {decoded original : MessageBase}
    (left : opening.Opens decoded) (right : opening.Opens original) :
    decoded.isRequest = original.isRequest ∧
      (original.isRequest = true →
        decoded.method = original.method ∧ decoded.target = original.target) ∧
      (original.isRequest = false →
        decoded.statusCode = original.statusCode ∧ decoded.reason = original.reason) := by
  cases opening with
  | request method target =>
      obtain ⟨flag, verb, target⟩ := left
      obtain ⟨flag', verb', target'⟩ := right
      refine ⟨flag.trans flag'.symm, fun _ => ⟨verb.trans verb'.symm, target.trans target'.symm⟩, ?_⟩
      rw [flag']
      exact nofun
  | response code reason =>
      obtain ⟨flag, number, text⟩ := left
      obtain ⟨flag', number', text'⟩ := right
      refine ⟨flag.trans flag'.symm, ?_, fun _ => ⟨number.trans number'.symm, text.trans text'.symm⟩⟩
      rw [flag']
      exact nofun

namespace Draft

variable {draft : Draft}

theorem setHeaders_eq (lines : List (Bytes × Bytes)) (message : MessageBase) :
    ∃ headers, lines.foldl (fun message line => message.setHeader line.1 line.2) message =
      { message with headers } := by
  induction lines generalizing message with
  | nil => exact ⟨message.headers, rfl⟩
  | cons line rest ih => exact ih (message.setHeader line.1 line.2)

theorem message_opens (draft : Draft) :
    draft.opening.Opens draft.message ∧ draft.message.httpMajor = 1 ∧
      draft.message.httpMinor = draft.minor ∧ draft.message.body = draft.body := by
  obtain ⟨headers, same⟩ := setHeaders_eq draft.lines
    (draft.opening.applyTo (MessageBase.new.setVersion 1 draft.minor))
  rw [message, same]
  cases draft.opening with
  | request method target => exact ⟨⟨rfl, rfl, rfl⟩, rfl, rfl, rfl⟩
  | response code reason => exact ⟨⟨rfl, rfl, rfl⟩, rfl, rfl, rfl⟩

theorem callbacks_parts (draft : Draft) (leftover : HttpMethod) :
    ∃ lines : List HeaderLine, lines.map HeaderLine.field = draft.message.fields ∧
      withoutBody (draft.callbacks leftover) = headEvents draft.opening.startLine lines
        (draft.opening.reportedMethod leftover) 1 draft.minor ++ [.messageComplete] ∧
      bodyBytes (draft.callbacks leftover) = draft.body.bytes := by
  have tidy := draft.message_tidy
  obtain ⟨lines, same, events⟩ := exists_lines tidy.named tidy.trimmed
  let head := headEvents draft.opening.startLine lines (draft.opening.reportedMethod leftover) 1
    draft.minor
  have parts : draft.callbacks leftover =
      head ++ ((if draft.body.bytes = [] then [] else [.body draft.body.bytes]) ++
        [.messageComplete]) := by
    rw [callbacks, ← events, ← List.append_assoc]
    rfl
  have apart := body_not_mem_headEvents draft.opening.startLine lines
    (draft.opening.reportedMethod leftover) 1 draft.minor
  refine ⟨lines, same, ?_, ?_⟩
  · rw [parts, withoutBody_append, withoutBody_eq_self apart]
    split <;> rfl
  · rw [parts, bodyBytes_append, bodyBytes_eq_nil apart]
    split
    · next empty => simp [empty, bodyBytes]
    · simp [bodyBytes]

/-- What http_parser is assumed to do with the text of a draft: it takes all of
it, stops at the end of the message and makes the callbacks. -/
structure Recognized {σ : Type} (http : HttpParser σ) (text : Bytes) (callbacks : List Event) :
    Prop where
  completes : http.Completes http.init text
  reported : Finer callbacks (http.execute http.init text).events

theorem handle_callbacks (draft : Draft) (leftover : HttpMethod) :
    ∃ final, (ParserContext.pInitialize .new).handle (withoutBody (draft.callbacks leftover)) =
        .ok final ∧
      draft.opening.Opens final.message ∧ final.message.httpMajor = 1 ∧
      final.message.httpMinor = draft.minor ∧ final.message.fields = draft.message.fields := by
  obtain ⟨lines, same, head, _⟩ := draft.callbacks_parts leftover
  obtain ⟨context, handled, fields⟩ := ParserContext.handle_head_fields draft.opening.startLine
    lines (draft.opening.reportedMethod leftover) 1 draft.minor
  obtain ⟨opens, major, minor⟩ :=
    ParserContext.handle_head_opened draft.ordinary leftover handled
  refine ⟨context.onMessageComplete, ?_, opens, major, minor, ?_⟩
  · rw [head, ParserContext.handle_append_of_ok handled]
    rfl
  · rw [← same, ← filed_eq (same ▸ draft.message_tidy)]
    exact fields

/-- What the parser makes of the text of a message, given in pieces. -/
theorem delivered {σ : Type} {http : HttpParser σ} (stopping : http.Stopping)
    (splitting : http.Splitting) (draft : Draft) (leftover : HttpMethod) {segments : List Bytes}
    (some : ∀ segment ∈ segments, segment ≠ [])
    (recognized : Recognized http segments.flatten (draft.callbacks leftover))
    (bodyFits : ∀ piece, .body piece ∈ http.reports http.init segments →
      piece.length + 100 ≤ 1024 * 1024) :
    ∃ parser early, (∀ value ∈ early, Parser.Onward value) ∧
      (∀ fuel, (Parser.begin http .new).consumeAll http (fuel + 1) segments =
        .ok (parser, early ++ [⟨.endOfMessage, 0⟩])) ∧
      (∃ events, (ParserContext.pInitialize .new).handle events = .ok parser.context) ∧
      draft.opening.Opens parser.context.message ∧ parser.context.message.httpMajor = 1 ∧
      parser.context.message.httpMinor = draft.minor ∧
      parser.context.message.fields = draft.message.fields ∧
      parser.context.message.body.bytes = draft.body.bytes := by
  have finer : Finer (draft.callbacks leftover) (http.reports http.init segments) :=
    recognized.reported.trans (recognized.completes.reports_finer stopping splitting some)
  obtain ⟨final, headed, opens, major, minor, fields⟩ := draft.handle_callbacks leftover
  obtain ⟨_, _, _, body⟩ := draft.callbacks_parts leftover
  obtain ⟨next, pieces, like⟩ := ParserContext.handle_finer (.refl BufferChain.empty_built)
    (Finer.withoutBody finer) headed
  obtain ⟨stored, handled, built, text⟩ :=
    ParserContext.handle_withoutBody BufferChain.empty_built bodyFits pieces
  have ready : Parser.Ready http (.begin http .new) segments (next.withBody stored) :=
    ⟨recognized.completes, some, stopping.fresh, rfl, handled⟩
  obtain ⟨machine, early, onward, consumed⟩ := ready.consumeAll stopping splitting
  have same : { next.message with body := final.message.body } = final.message := like.message.1
  refine ⟨_, early, onward, consumed, ⟨_, handled⟩, ?_, ?_, ?_, ?_, ?_⟩
  · rw [← same] at opens
    cases opening : draft.opening <;> rw [opening] at opens <;> exact opens
  · exact (congrArg MessageBase.httpMajor same).trans major
  · exact (congrArg MessageBase.httpMinor same).trans minor
  · exact (congrArg MessageBase.fields same).trans fields
  · rw [← body, Finer.bodyBytes finer]
    exact built.bytes_eq.trans text

/-- What is written of a draft is its text. -/
theorem head_written (draft : Draft) (methodStr : HttpMethod → Bytes) :
    (draft.message.headPieces methodStr).flatten = draft.head methodStr := by
  obtain ⟨opens, _, minor, _⟩ := draft.message_opens
  have rendered := headPieces_renders opens (minor ▸ draft.version) methodStr
  rw [minor] at rendered
  exact rendered

/-- A message that fits the buffers is read back as it was written. -/
theorem decode_encode {σ : Type} {http : HttpParser σ} (stopping : http.Stopping)
    (splitting : http.Splitting) (methodStr : HttpMethod → Bytes) (draft : Draft)
    (leftover : HttpMethod)
    (recognized : Recognized http (draft.text methodStr) (draft.callbacks leftover))
    (headFits : (draft.head methodStr).length ≤ 1024 * 1024) :
    ∃ buffer, draft.message.serializeHeaders methodStr = .ok buffer ∧
      ∀ segments : List Bytes, (∀ segment ∈ segments, segment ≠ []) →
        segments.flatten = buffer.contents ++ draft.message.body.bytes →
        (∀ piece, .body piece ∈ http.reports http.init segments →
          piece.length + 100 ≤ 1024 * 1024) →
        ∃ parser early, (∀ value ∈ early, Parser.Onward value) ∧
          (∀ fuel, (Parser.begin http .new).consumeAll http (fuel + 1) segments =
            .ok (parser, early ++ [⟨.endOfMessage, 0⟩])) ∧
          parser.context.message.Agrees draft.message := by
  rw [← draft.head_written] at headFits
  obtain ⟨buffer, serialized, contents⟩ := MessageBase.serializeHeaders_ok headFits
  obtain ⟨original, major', minor', chain⟩ := draft.message_opens
  refine ⟨buffer, serialized, fun segments some cut bodyFits => ?_⟩
  have whole : segments.flatten = draft.text methodStr := by
    rw [cut, contents, draft.head_written, chain, text]
  rw [← whole] at recognized
  obtain ⟨parser, early, onward, consumed, _, opened, major, minor, fields, body⟩ :=
    draft.delivered stopping splitting leftover some recognized bodyFits
  obtain ⟨flag, request, response⟩ := opened.agree original
  refine ⟨parser, early, onward, consumed, flag, request, response, ⟨?_, ?_⟩, fields, ?_⟩
  · exact major.trans major'.symm
  · exact minor.trans minor'.symm
  · rw [body, chain]

/-- A chain with the given blocks, each with the capacity it was made with. -/
def stored (blocks : List (Bytes × Nat)) : BufferChain :=
  blocks.foldl (fun chain (text, capacity) =>
    chain.pushBack ⟨.standard, text, text.length, capacity, text.length⟩) .empty

theorem stored_tallied (blocks : List (Bytes × Nat)) : (stored blocks).Tallied := by
  suffices every : ∀ chain : BufferChain, chain.Tallied →
      (blocks.foldl (fun chain (text, capacity) =>
        chain.pushBack ⟨.standard, text, text.length, capacity, text.length⟩) chain).Tallied from
    every _ BufferChain.empty_tallied
  induction blocks with
  | nil => exact fun _ tallied => tallied
  | cons block rest ih => exact fun _ tallied => ih _ (tallied.pushBack _)

theorem stored_pair_size (text : Bytes) (capacity : Nat) :
    (stored [(text, capacity), (text, capacity)]).size = text.length + text.length :=
  congrArg (· + text.length) (Nat.zero_add text.length)

/-- `POST /a HTTP/1.1` with one header line and a body. -/
def upload (body : BufferChain) (tallied : body.Tallied) : Draft where
  opening := .request (.other 3) (ascii "/a")
  minor := 1
  lines := [(ascii "Host", ascii " h.x ")]
  body := body
  ordinary := ⟨by decide, by decide, by simp [ascii]⟩
  version := .inr rfl
  named := by decide
  inlined := by decide
  unencoded := by decide
  tallied := tallied

/-- The text of an upload, as http_parser reads it. -/
def uploadScript (length body : Bytes) : Script :=
  .closing (ascii "P") .messageBegin ++ .silent (ascii "OST ") ++ .data .url (ascii "/a") ++
    .silent (ascii " HTTP/1.1\r\n") ++ .data .headerField (ascii "HOST") ++ .silent (ascii ": ") ++
    .data .headerValue (ascii "h.x") ++ .silent (ascii "\r\n") ++
    .data .headerField (ascii "CONTENT-LENGTH") ++ .silent (ascii ": ") ++
    .data .headerValue length ++
    .closing (ascii "\r\n\r\n") (.headersComplete (.other 3) 1 1) ++ .data .body body

theorem uploadScript_ne_nil (length body : Bytes) : uploadScript length body ≠ [] := by
  simp [uploadScript, Script.silent, ascii]

def post : HttpMethod → Bytes := fun _ => ascii "POST"

def small : Draft :=
  upload (stored [(ascii "abc", 256)]) (stored_tallied _)

/-- Three segments, cut inside a header line and inside the body. -/
def smallSegments : List Bytes :=
  [ascii "POST /a HTTP/1.1\r\nHO", ascii "ST: h.x\r\nCONTENT-LENGTH: 3\r\n\r\na", ascii "bc"]

theorem small_recognized :
    Recognized (scripted [uploadScript (ascii "3") (ascii "abc")]) (small.text post)
      (small.callbacks .connect) :=
  ⟨⟨by decide, by decide, by decide⟩, by
    have same : small.callbacks .connect =
        ((scripted [uploadScript (ascii "3") (ascii "abc")]).execute
          (scripted [uploadScript (ascii "3") (ascii "abc")]).init (small.text post)).events := by
      decide
    rw [← same]⟩

def fitsBlock : Event → Bool
  | .body piece => decide (piece.length + 100 ≤ 1024 * 1024)
  | _ => true

/-- An upload of three bytes is decoded from its three segments. -/
theorem small_upload_decoded :
    ∃ buffer, small.message.serializeHeaders post = .ok buffer ∧
      smallSegments.flatten = buffer.contents ++ small.message.body.bytes ∧
      ∃ parser early, (∀ value ∈ early, Parser.Onward value) ∧
        (∀ fuel, (Parser.begin (scripted [uploadScript (ascii "3") (ascii "abc")]) .new).consumeAll
            (scripted [uploadScript (ascii "3") (ascii "abc")]) (fuel + 1) smallSegments =
          .ok (parser, early ++ [⟨.endOfMessage, 0⟩])) ∧
        parser.context.message.Agrees small.message := by
  obtain ⟨written, made, cut⟩ : ∃ buffer, small.message.serializeHeaders post = .ok buffer ∧
      smallSegments.flatten = buffer.contents ++ small.message.body.bytes :=
    ⟨_, rfl, by decide⟩
  have pieces : ∀ event ∈ (scripted [uploadScript (ascii "3") (ascii "abc")]).reports
      (scripted [uploadScript (ascii "3") (ascii "abc")]).init smallSegments,
      fitsBlock event = true := by decide
  obtain ⟨buffer, serialized, decoded⟩ := decode_encode (scripted_stopping _)
    (scripted_splitting _) post small .connect small_recognized (by decide)
  obtain rfl := Except.ok.inj (made.symm.trans serialized)
  exact ⟨written, serialized, cut, decoded smallSegments (by decide) cut
    fun piece member => of_decide_eq_true (pieces _ member)⟩

end Draft

/-! ## Messages that are too big

The allocator refuses a block of more than one mebibyte, and a head or a piece
of a body is put into one block. -/

theorem ScriptState.feed_script {script : Script} (some : script ≠ []) :
    feed (script.map ScriptByte.byte) (.reading [script]) =
      ⟨.paused, script.length, script.reports ++ [.messageComplete]⟩ := by
  induction script with
  | nil => exact absurd rfl some
  | cons first rest ih =>
      cases rest with
      | nil => simp [feed, next, advance, Script.reports]
      | cons second others =>
          have step : next first.byte [first :: second :: others] =
              (.reading [second :: others], first.events.filter (· ≠ .messageComplete)) := by
            simp [next, advance]
          rw [List.map_cons, feed, step]
          simp only [ih (List.cons_ne_nil _ _)]
          simp [Script.reports]

theorem scripted_execute_script {script : Script} (some : script ≠ []) :
    (scripted [script]).execute (scripted [script]).init (script.map ScriptByte.byte) =
      ⟨.paused, script.length, coalesce (script.reports ++ [.messageComplete])⟩ := by
  have bytes : script.map ScriptByte.byte ≠ [] := by simpa using some
  rw [scripted_execute _ _ bytes]
  simp only [scripted, ScriptState.feed_script some]

theorem reports_data_body (body : Bytes) :
    Script.reports (.data .body body) = body.map (fun byte => .body [byte]) := by
  induction body with
  | nil => rfl
  | cons byte rest ih => exact congrArg (Event.body [byte] :: ·) ih

theorem coalesce_body {body : Bytes} (some : body ≠ []) :
    coalesce (body.map (fun byte => .body [byte]) ++ [.messageComplete]) =
      [.body body, .messageComplete] := by
  induction body with
  | nil => exact absurd rfl some
  | cons byte rest ih =>
      by_cases last : rest = []
      · subst last
        rfl
      · have joined : coalesce (.body [byte] :: (rest.map (fun byte => .body [byte]) ++
            [.messageComplete])) = Event.push (.body [byte]) [.body rest, .messageComplete] :=
          congrArg (Event.push (.body [byte])) (ih last)
        rw [List.map_cons, List.cons_append, joined]
        rfl

namespace Draft

def largeHead : List Event :=
  [.messageBegin, .url (ascii "/a"), .headerField (ascii "HOST"), .headerValue (ascii "h.x"),
    .headerField (ascii "CONTENT-LENGTH"), .headerValue (ascii "1048576"),
    .headersComplete (.other 3) 1 1]

theorem upload_reported {body : Bytes} (some : body ≠ []) :
    coalesce (Script.reports (uploadScript (ascii "1048576") body) ++ [.messageComplete]) =
      largeHead ++ [.body body, .messageComplete] := by
  have parts : Script.reports (uploadScript (ascii "1048576") body) ++ [.messageComplete] =
      Script.reports (uploadScript (ascii "1048576") []) ++
        (body.map (fun byte => .body [byte]) ++ [.messageComplete]) := by
    rw [← reports_data_body]
    simp [uploadScript, Script.reports, Script.data]
  rw [parts, coalesce, List.foldr_append]
  change List.foldr Event.push (coalesce (body.map (fun byte => .body [byte]) ++ [.messageComplete]))
    _ = _
  rw [coalesce_body some]
  rfl

section Large

variable {body : BufferChain} (tallied : body.Tallied)

theorem upload_fields (size : body.size = 1048576) :
    (upload body tallied).message.fields =
      [⟨.ofText (ascii "Host"), ascii "h.x"⟩,
        ⟨.ofText HeaderFields.contentLength, ascii "1048576"⟩] := by
  have numeral : decimal 1048576 = ascii "1048576" := by decide
  rw [message, MessageBase.fields_setBody, show (upload body tallied).body.size = 1048576 from size,
    numeral]
  rfl

theorem upload_head (size : body.size = 1048576) :
    (upload body tallied).head post =
      ascii "POST /a HTTP/1.1\r\nHOST: h.x\r\nCONTENT-LENGTH: 1048576\r\n\r\n" := by
  rw [head, upload_fields tallied size]
  change headText post (.request (.other 3) (ascii "/a")) 1 _ = _
  decide

theorem upload_text (size : body.size = 1048576) :
    (upload body tallied).text post =
      (uploadScript (ascii "1048576") body.bytes).map ScriptByte.byte := by
  have data : (Script.data .body body.bytes).map ScriptByte.byte = body.bytes := by
    simp [Script.data, Function.comp_def]
  rw [text, upload_head tallied size, uploadScript, List.map_append, data]
  rfl

theorem upload_written (size : body.size = 1048576) :
    ∃ buffer, (upload body tallied).message.serializeHeaders post = .ok buffer ∧
      buffer.contents ++ (upload body tallied).message.body.bytes =
        (upload body tallied).text post := by
  have written := (upload body tallied).head_written post
  have short : ((upload body tallied).message.headPieces post).flatten.length ≤ 1024 * 1024 := by
    rw [written, upload_head tallied size]
    decide
  obtain ⟨buffer, serialized, contents⟩ := MessageBase.serializeHeaders_ok short
  exact ⟨buffer, serialized, by rw [contents, written]; rfl⟩

theorem upload_callbacks (size : body.size = 1048576) (some : body.bytes ≠ []) :
    (upload body tallied).callbacks .connect = largeHead ++ [.body body.bytes, .messageComplete] := by
  rw [callbacks, upload_fields tallied size,
    if_neg (show (upload body tallied).body.bytes ≠ [] from some)]
  rfl

/-- http_parser as it is assumed, on an upload of a mebibyte in one segment. -/
theorem upload_recognized (size : body.size = 1048576) (some : body.bytes ≠ []) :
    Recognized (scripted [uploadScript (ascii "1048576") body.bytes])
      ((upload body tallied).text post) ((upload body tallied).callbacks .connect) := by
  have script := uploadScript_ne_nil (ascii "1048576") body.bytes
  rw [upload_text tallied size, upload_callbacks tallied size some]
  refine ⟨⟨by simpa using script, ?_, ?_⟩, ?_⟩
  · rw [scripted_execute_script script]
    rfl
  · rw [scripted_execute_script script]
    simp
  · rw [scripted_execute_script script, upload_reported some]

theorem upload_refused (size : body.size = 1048576) (some : body.bytes ≠ [])
    (big : 1024 * 1024 < body.bytes.length + 100) (fuel : Nat) :
    (Parser.begin (scripted [uploadScript (ascii "1048576") body.bytes]) .new).consumeAll
        (scripted [uploadScript (ascii "1048576") body.bytes]) (fuel + 1)
        [(upload body tallied).text post] =
      .error (.thrown .requestedAllocationTooBig) := by
  have script := uploadScript_ne_nil (ascii "1048576") body.bytes
  have text : (uploadScript (ascii "1048576") body.bytes).map ScriptByte.byte ≠ [] := by
    simpa using script
  obtain ⟨context, headed, empty⟩ : ∃ context, (ParserContext.pInitialize .new).handle largeHead =
      .ok context ∧ context.message.body = .empty := ⟨_, rfl, rfl⟩
  have refused : context.dispatch (.body body.bytes) = .error .requestedAllocationTooBig := by
    have full := BufferChain.appendBlock_error BufferChain.empty_built body.bytes big
    rw [ParserContext.dispatch, ParserContext.onBodyData, empty]
    simp [BufferChain.append, BufferChain.empty, bind, Except.bind] at full ⊢
    rw [full]
  have handled : (ParserContext.pInitialize .new).handle
      (largeHead ++ [.body body.bytes, .messageComplete]) = .error .requestedAllocationTooBig := by
    rw [ParserContext.handle_append_of_ok headed, ParserContext.handle_cons, refused]
    rfl
  have appended : Parser.appendBytes (scripted [uploadScript (ascii "1048576") body.bytes])
      { Parser.begin (scripted [uploadScript (ascii "1048576") body.bytes]) .new with
        started := true }
      ((uploadScript (ascii "1048576") body.bytes).map ScriptByte.byte) =
        .error .requestedAllocationTooBig := by
    simp only [Parser.appendBytes, Parser.begin]
    rw [scripted_execute_script script]
    simp only [upload_reported some, handled, bind, Except.bind]
  rw [upload_text tallied size, Parser.consumeAll,
    Parser.consume_eq (scripted_stopping _) (Parser.begin_coherent (scripted_stopping _) _) fuel text,
    appended]
  rfl

end Large

def halfMebibyte : Bytes := List.replicate (512 * 1024) 97

theorem halfMebibyte_length : halfMebibyte.length = 512 * 1024 :=
  List.length_replicate

/-- The chain two calls of `append` make. -/
def largeBody : BufferChain :=
  stored [(halfMebibyte, halfMebibyte.length + 100), (halfMebibyte, halfMebibyte.length + 100)]

theorem largeBody_tallied : largeBody.Tallied :=
  stored_tallied _

theorem largeBody_size : largeBody.size = 1048576 := by
  rw [largeBody, stored_pair_size, halfMebibyte_length]

theorem largeBody_length : largeBody.bytes.length = 1048576 :=
  largeBody_tallied.bytes_length.trans largeBody_size

def large : Draft := upload largeBody largeBody_tallied

def fetch (target : Bytes) (plain : target ≠ [] ∧ ∀ byte ∈ target, 32 < byte ∧ byte ≠ 127) :
    Draft where
  opening := .request (.other 3) target
  minor := 1
  lines := []
  body := .empty
  ordinary := ⟨by decide, plain⟩
  version := .inr rfl
  named := nofun
  inlined := nofun
  unencoded := nofun
  tallied := BufferChain.empty_tallied

theorem fetch_refused {target : Bytes}
    (plain : target ≠ [] ∧ ∀ byte ∈ target, 32 < byte ∧ byte ≠ 127)
    (big : 1024 * 1024 ≤ target.length) :
    (fetch target plain).message.serializeHeaders post = .error .requestedAllocationTooBig := by
  apply MessageBase.serializeHeaders_error
  have length := @headPieces_length post (fetch target plain).message rfl
  have same : (fetch target plain).message.target = target := rfl
  rw [same] at length
  omega

theorem halfMebibyte_plain :
    halfMebibyte ≠ [] ∧ ∀ byte ∈ halfMebibyte, 32 < byte ∧ byte ≠ 127 := by
  refine ⟨?_, fun byte member => ?_⟩
  · rw [← List.length_pos_iff, halfMebibyte_length]
    decide
  · rw [List.eq_of_mem_replicate member]
    decide

theorem mebibyte_plain : halfMebibyte ++ halfMebibyte ≠ [] ∧
    ∀ byte ∈ halfMebibyte ++ halfMebibyte, 32 < byte ∧ byte ≠ 127 := by
  refine ⟨by simp [halfMebibyte_plain.1], fun byte member => ?_⟩
  rcases List.mem_append.mp member with early | late
  · exact halfMebibyte_plain.2 byte early
  · exact halfMebibyte_plain.2 byte late

/-- A target of a mebibyte cannot be written, and a body of a mebibyte that
arrives in one segment cannot be read. -/
theorem mebibyte_not_decoded :
    (fetch _ mebibyte_plain).message.serializeHeaders post = .error .requestedAllocationTooBig ∧
      Recognized (scripted [uploadScript (ascii "1048576") largeBody.bytes])
        (large.text post) (large.callbacks .connect) ∧
      ∃ buffer, large.message.serializeHeaders post = .ok buffer ∧
        ∀ fuel, (Parser.begin (scripted [uploadScript (ascii "1048576") largeBody.bytes])
            .new).consumeAll (scripted [uploadScript (ascii "1048576") largeBody.bytes]) (fuel + 1)
            [buffer.contents ++ large.message.body.bytes] =
          .error (.thrown .requestedAllocationTooBig) := by
  have some : largeBody.bytes ≠ [] := by
    rw [← List.length_pos_iff, largeBody_length]
    decide
  obtain ⟨buffer, serialized, whole⟩ := upload_written largeBody_tallied largeBody_size
  refine ⟨fetch_refused mebibyte_plain ?_, upload_recognized largeBody_tallied largeBody_size some,
    buffer, serialized, fun fuel => ?_⟩
  · rw [List.length_append, halfMebibyte_length]
  · rw [large, whole]
    refine upload_refused largeBody_tallied largeBody_size some ?_ fuel
    rw [largeBody_length]
    decide

end Draft

end Marvin.Http
