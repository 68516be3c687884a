import Marvin.Http.HeaderSection
import Marvin.Http.Segmentation

namespace Marvin.Http

open Marvin.Data Marvin.Buffer

/-! # The end of the input

`Parser::end` tells http_parser of the end of the input by a call without data.
What that call does depends on what http_parser has made of the data before it,
so the assumptions about it are stated for the states that data leads to.
-/

/-- http_parser is still reading, in the given state, and has made the given
callbacks since it was initialised. -/
inductive Heard {σ : Type} (http : HttpParser σ) : σ → List Event → Prop where
  | init : Heard http http.init []
  | more {state : σ} {events : List Event} {data : Bytes} (heard : Heard http state events)
      (some : data ≠ []) (going : http.errno (http.execute state data).state = .ok) :
      Heard http (http.execute state data).state (events ++ (http.execute state data).events)

/-- The names that header values belong to are reported before them. -/
def namedFrom : Bool → List Event → Bool
  | _, [] => true
  | _, .headerField _ :: events => namedFrom true events
  | seen, .headerValue _ :: events => seen && namedFrom seen events
  | seen, _ :: events => namedFrom seen events

namespace HttpParser

variable {σ : Type}

/-- The call without data: it completes a body that goes on until the end of the
input, is an error inside any other message, and has no effect before the first
byte of a message, which is when the first callback is made. -/
structure Ending (http : HttpParser σ) (untilEof : σ → Prop) : Prop where
  opened {state : σ} {events : List Event} : Heard http state events → untilEof state → events ≠ []
  completes {state : σ} {events : List Event} : Heard http state events → untilEof state →
    (http.execute state []).events = [.messageComplete]
  fails {state : σ} {events : List Event} : Heard http state events → ¬ untilEof state →
    events ≠ [] → (http.execute state []).events = [] ∧
      ∃ code, http.errno (http.execute state []).state = .failed code
  begins {state : σ} : Heard http state [] → (http.execute state []).events = [] ∧
    http.errno (http.execute state []).state = .ok

/-- What the callbacks of http_parser report: a name before its value, and no more
body data than it was given. -/
structure Reporting (http : HttpParser σ) : Prop where
  named {state : σ} {events : List Event} : Heard http state events → namedFrom false events = true
  covered {state : σ} {events : List Event} (data piece : Bytes) : Heard http state events →
    .body piece ∈ (http.execute state data).events → piece.length ≤ data.length

end HttpParser

variable {σ : Type} {http : HttpParser σ} {untilEof : σ → Prop} {state : σ} {events : List Event}

theorem Heard.going (stopping : http.Stopping) (heard : Heard http state events) :
    http.errno state = .ok := by
  cases heard with
  | init => exact stopping.fresh
  | more _ _ going => exact going

theorem Heard.unfinished (stopping : http.Stopping) (heard : Heard http state events) :
    .messageComplete ∉ events := by
  induction heard with
  | init => exact List.not_mem_nil
  | @more before earlier data heard some going ih =>
      rw [List.mem_append, not_or]
      exact ⟨ih, stopping.quiet (heard.going stopping) going⟩

/-! ## The callbacks do not fail -/

namespace ParserContext

/-- A report is handled when every value comes after a name and every piece of the
body is within the allocator's limit. -/
theorem handle_exists {context : ParserContext} {events : List Event} {seen : Bool}
    (known : seen = true → context.headerState ≠ .nothing) (named : namedFrom seen events = true)
    (built : context.message.body.Built)
    (small : ∀ piece, .body piece ∈ events → piece.length + 100 ≤ 1024 * 1024) :
    ∃ after, context.handle events = .ok after := by
  induction events generalizing context seen with
  | nil => exact ⟨context, rfl⟩
  | cons event rest ih =>
      have later : ∀ piece, .body piece ∈ rest → piece.length + 100 ≤ 1024 * 1024 :=
        fun piece member => small piece (List.mem_cons_of_mem _ member)
      suffices step : ∃ middle next, context.dispatch event = .ok middle ∧
          (next = true → middle.headerState ≠ .nothing) ∧ namedFrom next rest = true by
        obtain ⟨middle, next, first, held, onward⟩ := step
        obtain ⟨after, rested⟩ := ih held onward (dispatch_built built first) later
        exact ⟨after, by rw [handle_cons_of_ok first, rested]⟩
      cases event with
      | headerField piece => exact ⟨_, true, rfl, fun _ => by simp [onHeaderFieldData], named⟩
      | headerValue piece =>
          simp only [namedFrom, Bool.and_eq_true] at named
          cases state : context.headerState with
          | nothing => exact absurd state (known named.1)
          | field =>
              refine ⟨{ context with valueStringbuf := piece, headerState := .value }, seen, ?_,
                fun _ => by simp, named.2⟩
              simp only [dispatch, onHeaderValueData, state]
              rfl
          | value =>
              refine ⟨{ context with
                valueStringbuf := context.valueStringbuf ++ piece, headerState := .value }, seen, ?_,
                fun _ => by simp, named.2⟩
              simp only [dispatch, onHeaderValueData, state]
              rfl
      | body piece =>
          obtain ⟨body, appended, _⟩ := onBodyData_ok built (small piece List.mem_cons_self)
          exact ⟨_, seen, appended, known, named⟩
      | headersComplete method major minor =>
          exact ⟨_, seen, rfl, by simpa only [onHeadersComplete_headerState] using known, named⟩
      | messageBegin | url | status | chunkHeader | chunkComplete | messageComplete =>
          exact ⟨_, seen, rfl, known, named⟩

end ParserContext

/-! ## The parser at the end of the input -/

namespace Parser

variable {parser after : Parser σ} {data : Bytes} {nparsed : Nat}

/-- The parser is reading, and its context is what the callbacks have made of a
fresh message. -/
structure Traced (http : HttpParser σ) (parser : Parser σ) (events : List Event) : Prop where
  heard : Heard http parser.machine events
  handled : (ParserContext.pInitialize .new).handle events = .ok parser.context
  quiet : parser.started = false → events = []

theorem begin_traced (http : HttpParser σ) : Traced http (.begin http .new) [] :=
  ⟨.init, rfl, fun _ => rfl⟩

theorem Traced.append (traced : Traced http parser events) (some : data ≠ [])
    (appended : { parser with started := true }.appendBytes http data = .ok (after, nparsed))
    (going : http.errno after.machine = .ok) :
    Traced http after (events ++ (http.execute parser.machine data).events) := by
  obtain ⟨handled, machine, started, _⟩ := appendBytes_ok appended
  refine ⟨?_, ?_, fun idle => ?_⟩
  · rw [machine] at going ⊢
    exact .more traced.heard some going
  · rw [ParserContext.handle_append_of_ok traced.handled]
    exact handled
  · rw [started] at idle
    cases idle

theorem Traced.messageDone (stopping : http.Stopping) (traced : Traced http parser events) :
    parser.context.messageDone = false :=
  ParserContext.handle_unfinished traced.handled rfl (traced.heard.unfinished stopping)

theorem Traced.coherent (stopping : http.Stopping) (traced : Traced http parser events) :
    parser.Coherent http := by
  simp [Coherent, traced.messageDone stopping, traced.heard.going stopping]

theorem Traced.completed (stopping : http.Stopping) (ending : http.Ending untilEof)
    (traced : Traced http parser events) (inside : untilEof parser.machine) :
    parser.started = true ∧
      ∃ after, parser.endOfInput http = .ok (after, .endOfMessage) := by
  have started : parser.started = true := by
    rw [← Bool.not_eq_false]
    exact fun idle => ending.opened traced.heard inside (traced.quiet idle)
  have unfinished := traced.messageDone stopping
  have report := ending.completes traced.heard inside
  have paused : http.errno (http.execute parser.machine []).state = .paused := by
    rw [stopping.completed _ _ (traced.heard.going stopping), report]
    exact List.mem_singleton_self _
  refine ⟨started, { parser with
    machine := (http.execute parser.machine []).state
    context := parser.context.onMessageComplete }, ?_⟩
  have appended : parser.appendBytes http [] = .ok ({ parser with
      machine := (http.execute parser.machine []).state
      context := parser.context.onMessageComplete }, (http.execute parser.machine []).nparsed) := by
    simp only [appendBytes, report]
    rfl
  simp [endOfInput, unfinished, started, appended, isError, paused, ParserContext.onMessageComplete,
    bind, Except.bind, pure, Except.pure]

theorem Traced.truncated (stopping : http.Stopping) (ending : http.Ending untilEof)
    (traced : Traced http parser events) (outside : ¬ untilEof parser.machine)
    (started : parser.started = true) :
    ∃ after code, parser.endOfInput http = .ok (after, code) ∧
      (code = .error ∨ code = .endOfData) := by
  have unfinished := traced.messageDone stopping
  have report : (http.execute parser.machine []).events = [] := by
    by_cases silent : events = []
    · subst silent
      exact (ending.begins traced.heard).1
    · exact (ending.fails traced.heard outside silent).1
  have appended : parser.appendBytes http [] = .ok ({ parser with
      machine := (http.execute parser.machine []).state },
        (http.execute parser.machine []).nparsed) := by
    simp only [appendBytes, report]
    rfl
  by_cases silent : events = []
  · subst silent
    have going := (ending.begins traced.heard).2
    have fresh : parser.context = .pInitialize .new := by simpa using traced.handled.symm
    refine ⟨{ parser with machine := (http.execute parser.machine []).state }, .endOfData, ?_,
      .inr rfl⟩
    simp [endOfInput, started, appended, isError, going, fresh, ParserContext.pInitialize, bind,
      Except.bind, pure, Except.pure]
  · obtain ⟨code, failed⟩ := (ending.fails traced.heard outside silent).2
    refine ⟨{ parser with machine := (http.execute parser.machine []).state }, .error, ?_,
      .inl rfl⟩
    simp [endOfInput, unfinished, started, appended, isError, failed, bind, Except.bind, pure,
      Except.pure]

end Parser

/-! ## Messages that say where they end -/

/-- A complete message, at no place of which http_parser waits for the end of the
input: its length is given by `Content-Length` or by the chunked coding. -/
structure Delimited (http : HttpParser σ) (untilEof : σ → Prop) (bytes : Bytes) : Prop where
  stops : http.errno (http.execute http.init bytes).state = .paused
  count : (http.execute http.init bytes).nparsed = bytes.length
  counted (front rest : Bytes) : bytes = front ++ rest → front ≠ [] → rest ≠ [] →
    ¬ untilEof (http.execute http.init front).state

theorem Delimited.going (stopping : http.Stopping) (splitting : http.Splitting) {front rest : Bytes}
    (delimited : Delimited http untilEof (front ++ rest)) (some : front ≠ []) (more : rest ≠ []) :
    http.errno (http.execute http.init front).state = .ok := by
  by_contra halted
  have same := splitting.stopped http.init front rest some halted
  have count := delimited.count
  have bound := stopping.bounded http.init front some
  have room := List.length_pos_iff.mpr more
  rw [same, List.length_append] at count
  omega

/-- The parser has been given the front of a message, in pieces that the allocator
can store. -/
structure Partway (http : HttpParser σ) (given : Bytes) (parser : Parser σ)
    (events : List Event) : Prop where
  traced : Parser.Traced http parser events
  fresh : given = [] → parser.machine = http.init
  machine : given ≠ [] → parser.machine = (http.execute http.init given).state
  started : given ≠ [] → parser.started = true
  small (piece : Bytes) : .body piece ∈ events → piece.length + 100 ≤ 1024 * 1024

theorem begin_partway (http : HttpParser σ) : Partway http [] (.begin http .new) [] where
  traced := Parser.begin_traced http
  fresh _ := rfl
  machine some := absurd rfl some
  started some := absurd rfl some
  small _ member := absurd member List.not_mem_nil

variable {parser : Parser σ} {given data : Bytes}

theorem Partway.execute_state (stopping : http.Stopping) (splitting : http.Splitting)
    (partway : Partway http given parser events) (some : data ≠ []) :
    (http.execute parser.machine data).state = (http.execute http.init (given ++ data)).state := by
  by_cases first : given = []
  · rw [partway.fresh first, first, List.nil_append]
  · have going := partway.traced.heard.going stopping
    rw [partway.machine first] at going ⊢
    exact (splitting.resumed http.init given data first some going).1.symm

theorem Partway.append (stopping : http.Stopping) (splitting : http.Splitting)
    (reporting : http.Reporting) (partway : Partway http given parser events) {rest : Bytes}
    (delimited : Delimited http untilEof (given ++ data ++ rest)) (some : data ≠ []) (more : rest ≠ [])
    (fits : data.length + 100 ≤ 1024 * 1024) :
    ∃ after, { parser with started := true }.appendBytes http data = .ok (after, data.length) ∧
      http.errno after.machine = .ok ∧
      Partway http (given ++ data) after (events ++ (http.execute parser.machine data).events) := by
  have longer : given ++ data ≠ [] := List.append_ne_nil_of_right_ne_nil _ some
  have going := delimited.going stopping splitting longer more
  have reached := partway.execute_state stopping splitting some
  rw [← reached] at going
  have heard := Heard.more partway.traced.heard some going
  have small : ∀ piece, .body piece ∈ events ++ (http.execute parser.machine data).events →
      piece.length + 100 ≤ 1024 * 1024 := by
    intro piece member
    rcases List.mem_append.mp member with earlier | later
    · exact partway.small piece earlier
    · have bound := reporting.covered data piece partway.traced.heard later
      omega
  obtain ⟨context, handled⟩ := @ParserContext.handle_exists (.pInitialize .new) _ false
    (fun seen => by cases seen) (reporting.named heard) BufferChain.empty_built small
  have onward : parser.context.handle (http.execute parser.machine data).events = .ok context := by
    rwa [ParserContext.handle_append_of_ok partway.traced.handled] at handled
  have appended : { parser with started := true }.appendBytes http data =
      .ok (⟨(http.execute parser.machine data).state, context, true⟩, data.length) := by
    simp [Parser.appendBytes, onward, bind, Except.bind, pure, Except.pure,
      stopping.whole parser.machine data going]
  exact ⟨_, appended, going, partway.traced.append some appended going,
    fun none => absurd none longer, fun _ => reached, fun _ => rfl, small⟩

end Marvin.Http
