import Marvin.Http.HeaderSection
import Marvin.Http.Segmentation

namespace Marvin.Http

open Marvin.Data Marvin.Buffer

/-! # Trailers

http_parser reports the lines of a trailer section through the callbacks for
header lines, and does not end it with `headers_complete`.  So every trailer but
the last is filed as a header field, when the name of the next one begins.
-/

/-- A chunk, by the pieces of its data. -/
def chunkEvents (pieces : List Bytes) : List Event :=
  .chunkHeader :: pieces.map .body ++ [.chunkComplete]

/-- The chunks of a body, and the last chunk with its trailers. -/
def chunkedEvents (chunks : List (List Bytes)) (trailers : List HeaderLine) : List Event :=
  chunks.flatMap chunkEvents ++
    .chunkHeader :: trailers.flatMap HeaderLine.events ++ [.chunkComplete, .messageComplete]

namespace ParserContext

structure SameHeaders (before after : ParserContext) : Prop where
  state : after.headerState = before.headerState
  name : after.nameStringbuf = before.nameStringbuf
  fields : after.message.fields = before.message.fields

theorem SameHeaders.refl (context : ParserContext) : SameHeaders context context :=
  ⟨rfl, rfl, rfl⟩

theorem SameHeaders.trans {first second third : ParserContext} (left : SameHeaders first second)
    (right : SameHeaders second third) : SameHeaders first third :=
  ⟨right.state.trans left.state, right.name.trans left.name, right.fields.trans left.fields⟩

def BodyEvent (event : Event) : Prop :=
  event = .chunkHeader ∨ event = .chunkComplete ∨ ∃ piece, event = .body piece

theorem dispatch_bodyEvent {context after : ParserContext} {event : Event}
    (data : BodyEvent event) (handled : context.dispatch event = .ok after) :
    SameHeaders context after := by
  rcases data with rfl | rfl | ⟨piece, rfl⟩
  · cases handled
    exact .refl context
  · cases handled
    exact .refl context
  · obtain ⟨_, _, rfl⟩ := dispatch_body_cases handled
    exact ⟨rfl, rfl, rfl⟩

theorem handle_bodyEvents {context after : ParserContext} {events : List Event}
    (data : ∀ event ∈ events, BodyEvent event) (handled : context.handle events = .ok after) :
    SameHeaders context after := by
  induction events generalizing context with
  | nil =>
      obtain rfl : context = after := by simpa using handled
      exact .refl context
  | cons event rest ih =>
      obtain ⟨middle, first, later⟩ := handle_cons_ok handled
      exact (dispatch_bodyEvent (data event List.mem_cons_self) first).trans
        (ih (fun other member => data other (List.mem_cons_of_mem _ member)) later)

theorem mem_chunks {chunks : List (List Bytes)} {event : Event}
    (member : event ∈ chunks.flatMap chunkEvents) :
    BodyEvent event ∧ ∀ piece, event = .body piece → piece ∈ chunks.flatten := by
  obtain ⟨pieces, chunk, inside⟩ := List.mem_flatMap.mp member
  simp only [chunkEvents, List.cons_append, List.mem_cons, List.mem_append, List.mem_map,
    List.not_mem_nil, or_false] at inside
  rcases inside with rfl | ⟨piece, data, rfl⟩ | rfl
  · exact ⟨.inl rfl, nofun⟩
  · refine ⟨.inr (.inr ⟨piece, rfl⟩), fun other same => ?_⟩
    cases same
    exact List.mem_flatten.mpr ⟨pieces, chunk, data⟩
  · exact ⟨.inr (.inl rfl), nofun⟩

theorem handle_bodyEvents_exists {context : ParserContext} {events : List Event}
    (built : context.message.body.Built) (data : ∀ event ∈ events, BodyEvent event)
    (small : ∀ piece, .body piece ∈ events → piece.length + 100 ≤ 1024 * 1024) :
    ∃ after, context.handle events = .ok after := by
  induction events generalizing context with
  | nil => exact ⟨context, rfl⟩
  | cons event rest ih =>
      have step : ∃ middle, context.dispatch event = .ok middle := by
        rcases data event List.mem_cons_self with rfl | rfl | ⟨piece, rfl⟩
        · exact ⟨context, rfl⟩
        · exact ⟨context, rfl⟩
        · obtain ⟨body, appended, _⟩ := onBodyData_ok built (small piece List.mem_cons_self)
          exact ⟨_, appended⟩
      obtain ⟨middle, first⟩ := step
      obtain ⟨after, later⟩ := @ih middle (dispatch_built built first)
        (fun other member => data other (List.mem_cons_of_mem _ member))
        (fun piece member => small piece (List.mem_cons_of_mem _ member))
      exact ⟨after, by rw [handle_cons_of_ok first, later]⟩

theorem commitLine_fields_of_empty {context : ParserContext} (empty : context.nameStringbuf = []) :
    context.commitLine.message.fields = context.message.fields := by
  rw [commitLine, if_neg (by simp [empty])]

theorem handle_trailers {context : ParserContext} (outside : context.headerState ≠ .field)
    (empty : context.nameStringbuf = []) (trailers : List HeaderLine) :
    ∃ after, context.handle (trailers.flatMap HeaderLine.events) = .ok after ∧
      after.message.fields = context.message.fields ++ trailers.dropLast.map HeaderLine.field := by
  rcases List.eq_nil_or_concat trailers with none | ⟨front, last, rfl⟩
  · subst none
    exact ⟨context, rfl, by simp⟩
  · obtain ⟨filed, handled, between, fields⟩ := handle_lines outside front
    refine ⟨filed.pend last, ?_, ?_⟩
    · rw [List.concat_eq_append, List.flatMap_append, handle_append_of_ok handled,
        List.flatMap_singleton, handle_line between last]
    · rw [commitLine_fields_of_empty empty] at fields
      simpa [pend] using fields

theorem handle_chunked {complete final : ParserContext} {chunks : List (List Bytes)}
    {trailers : List HeaderLine} (outside : complete.headerState ≠ .field)
    (empty : complete.nameStringbuf = [])
    (handled : complete.handle (chunkedEvents chunks trailers) = .ok final) :
    final.message.fields = complete.message.fields ++ trailers.dropLast.map HeaderLine.field := by
  rw [chunkedEvents, List.append_assoc] at handled
  obtain ⟨last, data, ending⟩ := handle_append_ok handled
  have same := handle_bodyEvents (fun event member => (mem_chunks member).1) data
  have between : last.headerState ≠ .field := by
    rw [same.state]
    exact outside
  obtain ⟨filed, lines, fields⟩ := handle_trailers between (same.name.trans empty) trailers
  have opening : last.dispatch .chunkHeader = .ok last := rfl
  rw [List.cons_append, handle_cons_of_ok opening, handle_append_of_ok lines] at ending
  cases ending
  rw [← same.fields]
  exact fields

theorem handle_chunked_exists {complete : ParserContext} {chunks : List (List Bytes)}
    {trailers : List HeaderLine} (outside : complete.headerState ≠ .field)
    (empty : complete.nameStringbuf = []) (built : complete.message.body.Built)
    (small : ∀ piece ∈ chunks.flatten, piece.length + 100 ≤ 1024 * 1024) :
    ∃ final, complete.handle (chunkedEvents chunks trailers) = .ok final := by
  obtain ⟨last, data⟩ := @handle_bodyEvents_exists complete (chunks.flatMap chunkEvents) built
    (fun event member => (mem_chunks member).1)
    (fun piece member => small piece ((mem_chunks member).2 piece rfl))
  have same := handle_bodyEvents (fun event member => (mem_chunks member).1) data
  have between : last.headerState ≠ .field := by
    rw [same.state]
    exact outside
  obtain ⟨filed, lines, _⟩ := handle_trailers between (same.name.trans empty) trailers
  have opening : last.dispatch .chunkHeader = .ok last := rfl
  refine ⟨filed.onMessageComplete, ?_⟩
  rw [chunkedEvents, List.append_assoc, handle_append_of_ok data, List.cons_append,
    handle_cons_of_ok opening, handle_append_of_ok lines]
  rfl

end ParserContext

/-- A chunked message, however it is reported, has the header list of its header
section when it is complete exactly when it has at most one trailer; and it is
completed when every piece of its body is within the allocator's limit. -/
theorem trailers_leave_headers_iff (start : StartLine) (lines : List HeaderLine)
    (method : HttpMethod) (major minor : Nat) (chunks : List (List Bytes))
    (trailers : List HeaderLine) :
    ∃ complete, (ParserContext.pInitialize .new).handle
        (headEvents start lines method major minor) = .ok complete ∧
      (∀ final, complete.handle (chunkedEvents chunks trailers) = .ok final →
        final.messageDone = true ∧
          (final.message.fields = complete.message.fields ↔ trailers.length ≤ 1)) ∧
      ((∀ piece ∈ chunks.flatten, piece.length + 100 ≤ 1024 * 1024) →
        ∃ final, complete.handle (chunkedEvents chunks trailers) = .ok final) := by
  obtain ⟨filed, handled, between, _⟩ :=
    ParserContext.handle_head start lines method major minor
  let complete := filed.onHeadersComplete method major minor
  have outside : complete.headerState ≠ .field := by
    rw [ParserContext.onHeadersComplete_headerState]
    exact between
  have empty : complete.nameStringbuf = [] := filed.onHeadersComplete_nameStringbuf method major minor
  have built : complete.message.body.Built :=
    ParserContext.handle_built BufferChain.empty_built handled
  refine ⟨complete, handled, fun final finished => ⟨?_, ?_⟩,
    ParserContext.handle_chunked_exists outside empty built⟩
  · rw [ParserContext.handle_messageDone finished]
    simp [chunkedEvents]
  · rw [ParserContext.handle_chunked outside empty finished, List.append_right_eq_self,
      List.map_eq_nil_iff, ← List.length_eq_zero_iff, List.length_dropLast]
    omega

def chunkedLines : List HeaderLine :=
  [.whole (ascii "Transfer-Encoding") (ascii "chunked") (by decide)]

def trailerLines : List HeaderLine :=
  [.whole (ascii "Content-Length") (ascii "5") (by decide),
    .whole (ascii "X") (ascii "y") (by decide)]

/-- The first of two trailers of an empty chunked response is filed as a header
field. -/
theorem first_trailer_filed :
    ∃ complete final, (ParserContext.pInitialize .new).handle
        (headEvents (.response 200 [ascii "OK"]) chunkedLines (.other 0) 1 1) = .ok complete ∧
      complete.handle (chunkedEvents [] trailerLines) = .ok final ∧
      final.message.fields ≠ complete.message.fields :=
  ⟨_, _, rfl, rfl, by decide⟩

end Marvin.Http
