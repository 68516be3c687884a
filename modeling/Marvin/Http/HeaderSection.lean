import Marvin.Http.Parser

namespace Marvin.Http

open Marvin.Data

/-! # Header sections

What the header callbacks make of a header section.  A line is filed when the
next name begins, by adding a field; the last line is filed by
`p_on_headers_complete`, which overwrites a field of the same name.
-/

/-- A header line as http_parser delivers it: a name that is not empty, and
at least one value callback even when the value is. -/
structure HeaderLine where
  namePieces : List Bytes
  valuePieces : List Bytes
  named : namePieces.flatten ≠ []
  valued : valuePieces ≠ []

namespace HeaderLine

def name (line : HeaderLine) : Bytes := line.namePieces.flatten

def value (line : HeaderLine) : Bytes := line.valuePieces.flatten

def key (line : HeaderLine) : HeaderKey := .ofText line.name

def field (line : HeaderLine) : Field := ⟨line.key, line.value⟩

def events (line : HeaderLine) : List Event :=
  line.namePieces.map .headerField ++ line.valuePieces.map .headerValue

def whole (name value : Bytes) (named : name ≠ []) : HeaderLine :=
  ⟨[name], [value], by simpa using named, by simp⟩

end HeaderLine

/-- The part of a head before the header lines, in any pieces. -/
inductive StartLine where
  | request (target : List Bytes)
  | response (code : Nat) (reason : List Bytes)

def StartLine.events : StartLine → List Event
  | .request target => target.map .url
  | .response code reason => reason.map (.status code)

def headEvents (start : StartLine) (lines : List HeaderLine) (method : HttpMethod)
    (major minor : Nat) : List Event :=
  .messageBegin :: start.events ++ lines.flatMap HeaderLine.events ++
    [.headersComplete method major minor]

/-- Every line is there, in its place, up to white space around the value. -/
def MessageBase.HoldsLines (message : MessageBase) (lines : List HeaderLine) : Prop :=
  message.fields.map (fun field => (field.key.val, trim field.value)) =
    lines.map (fun line => (toUpper line.name, trim line.value))

instance (message : MessageBase) (lines : List HeaderLine) : Decidable (message.HoldsLines lines) :=
  inferInstanceAs (Decidable (_ = _))

namespace ParserContext

theorem handle_namePieces {context : ParserContext} (inName : context.headerState = .field)
    (pieces : List Bytes) :
    context.handle (pieces.map .headerField) =
      .ok { context with nameStringbuf := context.nameStringbuf ++ pieces.flatten } := by
  induction pieces generalizing context with
  | nil => simp
  | cons piece rest ih =>
      let next : ParserContext := { context with nameStringbuf := context.nameStringbuf ++ piece }
      have step : context.dispatch (.headerField piece) = .ok next := by
        simp [dispatch, onHeaderFieldData, inName, next, pure, Except.pure]
      have inside : next.headerState = .field := inName
      rw [List.map_cons, handle_cons_of_ok step, ih inside]
      simp [next]

theorem handle_valuePieces {context : ParserContext} (inValue : context.headerState = .value)
    (pieces : List Bytes) :
    context.handle (pieces.map .headerValue) =
      .ok { context with valueStringbuf := context.valueStringbuf ++ pieces.flatten } := by
  induction pieces generalizing context with
  | nil => simp
  | cons piece rest ih =>
      let next : ParserContext := { context with valueStringbuf := context.valueStringbuf ++ piece }
      have step : context.dispatch (.headerValue piece) = .ok next := by
        simp [dispatch, onHeaderValueData, inValue, next, pure, Except.pure]
      have inside : next.headerState = .value := inValue
      rw [List.map_cons, handle_cons_of_ok step, ih inside]
      simp [next]

theorem commitLine_nameStringbuf (context : ParserContext) :
    context.commitLine.nameStringbuf = [] := by
  unfold commitLine
  split
  · rfl
  · simp_all

def pend (context : ParserContext) (line : HeaderLine) : ParserContext :=
  { context.commitLine with
    nameStringbuf := line.name
    valueStringbuf := line.value
    headerState := .value }

theorem handle_line {context : ParserContext} (outside : context.headerState ≠ .field)
    (line : HeaderLine) : context.handle line.events = .ok (context.pend line) := by
  obtain ⟨namePieces, valuePieces, named, valued⟩ := line
  cases namePieces with
  | nil => exact absurd rfl named
  | cons piece pieces =>
      cases valuePieces with
      | nil => exact absurd rfl valued
      | cons first rest =>
          let opened : ParserContext :=
            { context.commitLine with nameStringbuf := piece, headerState := .field }
          have start : context.dispatch (.headerField piece) = .ok opened := by
            have empty := context.commitLine_nameStringbuf
            cases state : context.headerState with
            | field => exact absurd state outside
            | nothing | value =>
                simp [dispatch, onHeaderFieldData, state, empty, opened, pure, Except.pure]
          let named : ParserContext :=
            { opened with nameStringbuf := piece ++ pieces.flatten }
          have names : opened.handle (pieces.map .headerField) = .ok named :=
            handle_namePieces rfl pieces
          let valued : ParserContext := { named with valueStringbuf := first, headerState := .value }
          have values : valued.handle (rest.map .headerValue) =
              .ok { valued with valueStringbuf := first ++ rest.flatten } :=
            handle_valuePieces rfl rest
          have turn : named.dispatch (.headerValue first) = .ok valued := rfl
          rw [HeaderLine.events, List.map_cons, List.cons_append, handle_cons_of_ok start,
            handle_append_of_ok names, List.map_cons, handle_cons_of_ok turn, values]
          rfl

theorem pend_commitLine_fields (context : ParserContext) (line : HeaderLine) :
    (context.pend line).commitLine.message.fields =
      context.commitLine.message.fields ++ [line.field] := by
  have named : line.name ≠ [] := line.named
  simp [commitLine, pend, named, HeaderLine.field, HeaderLine.key]

theorem handle_lines {context : ParserContext} (outside : context.headerState ≠ .field)
    (lines : List HeaderLine) :
    ∃ after, context.handle (lines.flatMap HeaderLine.events) = .ok after ∧
      after.headerState ≠ .field ∧
      after.commitLine.message.fields =
        context.commitLine.message.fields ++ lines.map HeaderLine.field := by
  induction lines generalizing context with
  | nil => exact ⟨context, rfl, outside, by simp⟩
  | cons line rest ih =>
      obtain ⟨after, handled, between, fields⟩ :=
        ih (show (context.pend line).headerState ≠ .field from HeaderState.noConfusion)
      refine ⟨after, ?_, between, ?_⟩
      · rw [List.flatMap_cons, handle_append_of_ok (handle_line outside line)]
        exact handled
      · rw [fields, pend_commitLine_fields]
        simp

theorem handle_start (context : ParserContext) (start : StartLine) :
    ∃ after, context.handle start.events = .ok after ∧
      after.headerState = context.headerState ∧ after.nameStringbuf = context.nameStringbuf ∧
      after.message.fields = context.message.fields := by
  cases start with
  | request target =>
      induction target generalizing context with
      | nil => exact ⟨context, rfl, rfl, rfl, rfl⟩
      | cons piece rest ih => exact ih (context.onUrlData piece)
  | response code reason =>
      induction reason generalizing context with
      | nil => exact ⟨context, rfl, rfl, rfl, rfl⟩
      | cons piece rest ih => exact ih (context.onStatusData code piece)

theorem onHeadersComplete_fields (context : ParserContext) (method : HttpMethod)
    (major minor : Nat) :
    (context.onHeadersComplete method major minor).message.fields =
      context.commitLastLine.message.fields := by
  simp only [onHeadersComplete]
  split <;> split <;> rfl

theorem onHeadersComplete_headerState (context : ParserContext) (method : HttpMethod)
    (major minor : Nat) :
    (context.onHeadersComplete method major minor).headerState = context.headerState := by
  simp only [onHeadersComplete, commitLastLine]
  split <;> rfl

theorem onHeadersComplete_nameStringbuf (context : ParserContext) (method : HttpMethod)
    (major minor : Nat) : (context.onHeadersComplete method major minor).nameStringbuf = [] := by
  simp only [onHeadersComplete, commitLastLine]
  split
  · rfl
  · next unnamed => exact not_not.mp unnamed

/-- The context on which `p_on_headers_complete` is called: it puts the last
line, the others have been added. -/
theorem handle_head (start : StartLine) (lines : List HeaderLine) (method : HttpMethod)
    (major minor : Nat) :
    ∃ filed : ParserContext,
      (pInitialize .new).handle (headEvents start lines method major minor) =
        .ok (filed.onHeadersComplete method major minor) ∧
      filed.headerState ≠ .field ∧
      filed.commitLastLine.message.fields =
        match lines.getLast? with
        | none => []
        | some last =>
            KeyedList.put last.key (trim last.value) (lines.dropLast.map HeaderLine.field) := by
  obtain ⟨begun, started, state, name, fields⟩ := (pInitialize .new).onMessageBegin.handle_start start
  have pending : begun.commitLine.message.fields = [] := by
    have empty : begun.nameStringbuf = [] := name
    rw [commitLine, if_neg (by simp [empty]), fields]
    rfl
  have outside : begun.headerState ≠ .field := by
    rw [state]
    exact HeaderState.noConfusion
  have opening : (pInitialize .new).handle (headEvents start lines method major minor) =
      begun.handle (lines.flatMap HeaderLine.events ++ [.headersComplete method major minor]) := by
    have first : (pInitialize .new).dispatch .messageBegin =
        .ok (pInitialize .new).onMessageBegin := rfl
    rw [headEvents, List.cons_append, List.cons_append, List.append_assoc,
      handle_cons_of_ok first, handle_append_of_ok started]
  rw [opening]
  rcases List.eq_nil_or_concat lines with none | ⟨front, last, rfl⟩
  · subst none
    refine ⟨begun, rfl, outside, ?_⟩
    have empty : begun.nameStringbuf = [] := name
    rw [commitLastLine, if_neg (by simp [empty]), fields]
    rfl
  · obtain ⟨filed, handled, between, committed⟩ := handle_lines outside front
    refine ⟨filed.pend last, ?_, HeaderState.noConfusion, ?_⟩
    · rw [List.concat_eq_append, List.flatMap_append, List.append_assoc,
        handle_append_of_ok handled, List.flatMap_singleton,
        handle_append_of_ok (handle_line between last)]
      rfl
    · have named : (filed.pend last).nameStringbuf ≠ [] := last.named
      rw [commitLastLine, if_pos named]
      simp [pend, committed, pending, HeaderLine.key]

theorem handle_head_fields (start : StartLine) (lines : List HeaderLine) (method : HttpMethod)
    (major minor : Nat) :
    ∃ context, (pInitialize .new).handle (headEvents start lines method major minor) = .ok context ∧
      context.message.fields =
        match lines.getLast? with
        | none => []
        | some last =>
            KeyedList.put last.key (trim last.value) (lines.dropLast.map HeaderLine.field) := by
  obtain ⟨filed, handled, _, fields⟩ := handle_head start lines method major minor
  exact ⟨_, handled, (onHeadersComplete_fields filed method major minor).trans fields⟩

end ParserContext

theorem holdsLines_put_iff {message : MessageBase} {front : List HeaderLine} {last : HeaderLine}
    (fields : message.fields =
      KeyedList.put last.key (trim last.value) (front.map HeaderLine.field)) :
    message.HoldsLines (front ++ [last]) ↔ last.key ∉ front.map HeaderLine.key := by
  have keys : KeyedList.keys (front.map HeaderLine.field) = front.map HeaderLine.key := by
    simp [KeyedList.keys, HeaderLine.field]
  rw [← keys, MessageBase.HoldsLines, fields]
  refine ⟨fun held repeated => ?_, fun fresh => ?_⟩
  · have size := congrArg List.length held
    have same := congrArg List.length (@KeyedList.keys_put_of_mem _ _ _ _ (trim last.value) _ repeated)
    simp [KeyedList.keys] at size same
    omega
  · rw [KeyedList.put_of_not_mem fresh]
    simp [HeaderLine.field, HeaderLine.key, HeaderKey.ofText]

/-- A header section is kept in full exactly when its last line does not repeat
the name of an earlier one. -/
theorem headers_complete_holdsLines_iff (start : StartLine) (lines : List HeaderLine)
    (method : HttpMethod) (major minor : Nat) :
    ∃ context, (ParserContext.pInitialize .new).handle
        (headEvents start lines method major minor) = .ok context ∧
      (context.message.HoldsLines lines ↔
        ∀ last ∈ lines.getLast?, last.key ∉ lines.dropLast.map HeaderLine.key) := by
  obtain ⟨context, handled, fields⟩ :=
    ParserContext.handle_head_fields start lines method major minor
  refine ⟨context, handled, ?_⟩
  rcases List.eq_nil_or_concat lines with none | ⟨front, last, rfl⟩
  · subst none
    simp only [List.getLast?_nil] at fields
    simp [MessageBase.HoldsLines, fields]
  · rw [List.concat_eq_append] at fields ⊢
    simp only [List.getLast?_append, List.getLast?_singleton, Option.some_or,
      List.dropLast_append_of_ne_nil (List.cons_ne_nil last []), List.dropLast_singleton,
      List.append_nil] at fields
    rw [holdsLines_put_iff fields]
    simp

def cookieLines : List HeaderLine :=
  [.whole (ascii "Set-Cookie") (ascii "a=1") (by decide),
    .whole (ascii "Set-Cookie") (ascii "b=2") (by decide)]

/-- Of two cookies set by a response only the second is left. -/
theorem second_cookie_overwrites_first :
    ∃ context, (ParserContext.pInitialize .new).handle
        (headEvents (.response 200 [ascii "OK"]) cookieLines (.other 0) 1 1) = .ok context ∧
      ¬ context.message.HoldsLines cookieLines :=
  ⟨_, rfl, by decide⟩

end Marvin.Http
