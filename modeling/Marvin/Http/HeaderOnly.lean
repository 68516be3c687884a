import Marvin.Http.ScriptedParser
import Marvin.Http.Segments

namespace Marvin.Http

open Marvin.Data Marvin.Buffer

/-! # Reading a header only

`Parser::consume` with `only_header`, on the segments of a message.  No callback
pauses http_parser at the end of a header, and the flag is looked at when a whole
buffer has been parsed.
-/

def Event.isHeadersComplete : Event → Bool
  | .headersComplete _ _ _ => true
  | _ => false

/-- The report has the end of a header in it. -/
def headed (events : List Event) : Bool :=
  events.any Event.isHeadersComplete

@[simp] theorem headed_append (left right : List Event) :
    headed (left ++ right) = (headed left || headed right) :=
  List.any_append

theorem Cut.headed {coarse fine : List Event} (cut : Cut coarse fine) :
    headed coarse = headed fine := by
  cases cut with
  | @intro first second joined before after same =>
      rw [headed_append, headed_append]
      congr 1
      cases first <;> cases second <;> simp only [Event.join, reduceCtorEq] at same
      case status.status =>
          split at same
          · cases same
            rfl
          · cases same
      all_goals
        cases same
        rfl

theorem Finer.headed {coarse fine : List Event} (finer : Finer coarse fine) :
    headed coarse = headed fine := by
  induction finer with
  | refl => rfl
  | tail _ cut ih => exact ih.trans cut.headed

/-- A body that is not reported at once is not reported in pieces. -/
theorem Cut.bodiless {coarse fine : List Event} (cut : Cut coarse fine)
    (bodiless : ∀ piece, .body piece ∉ coarse) (piece : Bytes) : .body piece ∉ fine := by
  cases cut with
  | @intro first second joined before after same =>
      intro member
      simp only [List.mem_append, List.mem_cons, not_or] at bodiless member
      rcases member with early | data | data | late
      · exact (bodiless piece).1 early
      · subst data
        cases second <;> simp only [Event.join, reduceCtorEq] at same
        cases same
        exact (bodiless _).2.1 rfl
      · subst data
        cases first <;> simp only [Event.join, reduceCtorEq] at same
        cases same
        exact (bodiless _).2.1 rfl
      · exact (bodiless piece).2.2 late

theorem Finer.bodiless {coarse fine : List Event} (finer : Finer coarse fine)
    (bodiless : ∀ piece, .body piece ∉ coarse) : ∀ piece, .body piece ∉ fine := by
  induction finer with
  | refl => exact bodiless
  | tail _ cut ih => exact cut.bodiless ih

namespace ParserContext

@[simp] theorem commitLine_headerDone (context : ParserContext) :
    context.commitLine.headerDone = context.headerDone := by
  unfold commitLine
  split <;> rfl

theorem dispatch_headerDone {context after : ParserContext} {event : Event}
    (handled : context.dispatch event = .ok after) :
    after.headerDone = (context.headerDone || event.isHeadersComplete) := by
  cases event with
  | headersComplete method major minor =>
      cases handled
      simp [onHeadersComplete, Event.isHeadersComplete]
  | headerField piece =>
      cases handled
      cases state : context.headerState <;>
        simp [onHeaderFieldData, state, Event.isHeadersComplete]
  | headerValue piece =>
      cases state : context.headerState <;>
        simp [dispatch, onHeaderValueData, state, pure, Except.pure, throw, throwThe,
          MonadExceptOf.throw] at handled
      all_goals subst handled; simp [Event.isHeadersComplete]
  | body piece =>
      obtain ⟨_, _, rfl⟩ := dispatch_body_cases handled
      simp [Event.isHeadersComplete]
  | messageBegin | url | status | chunkHeader | chunkComplete | messageComplete =>
      cases handled
      simp [onMessageBegin, onUrlData, onStatusData, onMessageComplete, Event.isHeadersComplete]

theorem handle_headerDone {context after : ParserContext} {events : List Event}
    (handled : context.handle events = .ok after) :
    after.headerDone = (context.headerDone || headed events) := by
  induction events generalizing context with
  | nil =>
      obtain rfl : context = after := by simpa using handled
      simp [headed]
  | cons event rest ih =>
      obtain ⟨middle, first, later⟩ := handle_cons_ok handled
      rw [ih later, dispatch_headerDone first, Bool.or_assoc]
      rfl

theorem handle_bodiless {context after : ParserContext} {events : List Event}
    (handled : context.handle events = .ok after) (bodiless : ∀ piece, .body piece ∉ events) :
    after.message.body = context.message.body := by
  induction events generalizing context with
  | nil =>
      obtain rfl : context = after := by simpa using handled
      rfl
  | cons event rest ih =>
      obtain ⟨middle, first, later⟩ := handle_cons_ok handled
      have other : ∀ piece, event ≠ .body piece := fun piece same =>
        bodiless piece (by simp [same])
      rw [ih later (fun piece member => bodiless piece (List.mem_cons_of_mem _ member))]
      exact dispatch_body other first

end ParserContext

namespace HttpParser

variable {σ : Type} (http : HttpParser σ)

/-- From the given state, the text is a head: http_parser reports the end of the
header at its last byte, which ends the blank line, and has no body before it. -/
structure Head (state : σ) (text : Bytes) : Prop where
  some : text ≠ []
  complete : headed (http.execute state text).events = true
  first (count : Nat) : 0 < count → count < text.length →
    headed (http.execute state (text.take count)).events = false
  bodiless (piece : Bytes) : .body piece ∉ (http.execute state text).events

variable {http} {state : σ} {front middle back : Bytes}

/-- The front of a message is reported in two parts as it is in one. -/
theorem Completes.front_finer (stopping : http.Stopping) (splitting : http.Splitting)
    (completes : http.Completes state (front ++ (middle ++ back))) (some : front ≠ [])
    (more : middle ≠ []) :
    Finer (http.execute state (front ++ middle)).events ((http.execute state front).events ++
      (http.execute (http.execute state front).state middle).events) := by
  by_cases last : back = []
  · rw [last, List.append_nil] at completes
    exact (completes.part stopping splitting some more).2.2
  · have going := (completes.part stopping splitting some (List.append_ne_nil_of_left_ne_nil more _)).1
    rw [← List.append_assoc] at completes
    have onward := (completes.part stopping splitting (List.append_ne_nil_of_left_ne_nil some _) last).1
    obtain ⟨same, _, finer⟩ := splitting.resumed state front middle some more going
    rw [same] at onward
    exact finer (fun code failed => by rw [onward] at failed; cases failed)

/-- A segment that is not the whole head leaves a head. -/
theorem Head.rest (stopping : http.Stopping) (splitting : http.Splitting)
    (completes : http.Completes state (front ++ (middle ++ back))) (some : front ≠ [])
    (more : middle ≠ []) (head : http.Head state (front ++ middle)) :
    headed (http.execute state front).events = false ∧
      (∀ piece, .body piece ∉ (http.execute state front).events) ∧
      http.Head (http.execute state front).state middle := by
  have early : headed (http.execute state front).events = false := by
    have short := head.first front.length (List.length_pos_iff.mpr some) (by
      rw [List.length_append]
      exact Nat.lt_add_of_pos_right (List.length_pos_iff.mpr more))
    rwa [List.take_left] at short
  have finer := completes.front_finer stopping splitting some more
  have bodiless := finer.bodiless head.bodiless
  simp only [List.mem_append, not_or] at bodiless
  refine ⟨early, fun piece => (bodiless piece).1, more, ?_, fun count positive short => ?_,
    fun piece => (bodiless piece).2⟩
  · have complete := head.complete
    rwa [finer.headed, headed_append, early, Bool.false_or] at complete
  · have some' : middle.take count ≠ [] := by
      rw [← List.length_pos_iff, List.length_take]
      omega
    have parts : front ++ (middle ++ back) =
        front ++ (middle.take count ++ (middle.drop count ++ back)) := by
      rw [← List.append_assoc (middle.take count), List.take_append_drop]
    have within := head.first (front.length + count) (by omega) (by
      rw [List.length_append]
      omega)
    rw [parts] at completes
    rw [List.take_length_add_append, (completes.front_finer stopping splitting some some').headed,
      headed_append, early, Bool.false_or] at within
    exact within

/-- A segment that has the whole head in it has its end. -/
theorem Head.inside (stopping : http.Stopping) (splitting : http.Splitting)
    (completes : http.Completes state (front ++ (middle ++ back)))
    (head : http.Head state front) : headed (http.execute state (front ++ middle)).events = true := by
  by_cases none : middle = []
  · rw [none, List.append_nil]
    exact head.complete
  · rw [(completes.front_finer stopping splitting head.some none).headed, headed_append,
      head.complete, Bool.true_or]

end HttpParser

/-- The overloads of `consume`; those for a `mutable_buffer` and for a pointer and a
length are the one for a `const_buffer`. -/
inductive Overload where
  | constBuffer
  | streambuf
deriving DecidableEq, Repr

namespace Parser

variable {σ : Type} (http : HttpParser σ)

/-- What a caller has after one call: the code, and the bytes that are not processed. -/
def call (overload : Overload) (parser : Parser σ) (fuel : Nat) (buffer : Bytes)
    (onlyHeader : Bool) : Except Abort (Parser σ × ReturnCode × Bytes) :=
  match overload with
  | .constBuffer => do
      let (parser, value) ← parser.consume http fuel buffer onlyHeader
      return (parser, value.returnCode, buffer.drop (buffer.length - value.bytesRemaining))
  | .streambuf => do
      let (parser, left, value) ← parser.consumeStreambuf http fuel buffer onlyHeader
      return (parser, value.returnCode, left)

/-- The call with which a caller stops, and the segments it has not touched. -/
structure Stop (σ : Type) where
  parser : Parser σ
  code : ReturnCode
  left : Bytes
  rest : List Bytes

/-- A caller that wants the header goes on until something else than the end of the
data is returned; one that wants the message also goes on after the header. -/
def calls (overload : Overload) (onlyHeader : Bool) (fuel : Nat) :
    Parser σ → Bytes → List Bytes → Except Abort (Option (Stop σ))
  | _, _, [] => .ok none
  | parser, left, segment :: rest => do
      let (parser, code, left) ← parser.call http overload fuel (left ++ segment) onlyHeader
      if code = .endOfData ∨ code = .endOfHeader ∧ onlyHeader = false then
        calls overload onlyHeader fuel parser left rest
      else return some ⟨parser, code, left, rest⟩

/-- The calls for a header stop at its end, without a byte of the body in the message,
and leave what comes after the blank line; the calls for the message, made with what
was left, then read the message. -/
def StopsAtHeader (overload : Overload) (fuel : Nat) (head tail : Bytes) (whole : MessageBase)
    (segments : List Bytes) : Prop :=
  ∃ stop, calls http overload true fuel (.begin http .new) [] segments = .ok (some stop) ∧
    stop.parser.context.message.body.toString = [] ∧
    (∃ front, segments = front ++ stop.rest ∧ front.flatten = head ++ stop.left) ∧
    ((stop.code = .endOfMessage ∧ tail = [] ∧ stop.parser.context.message.Same whole) ∨
      (stop.code = .endOfHeader ∧ ∃ final,
        calls http overload false fuel stop.parser []
          ((stop.left :: stop.rest).filter (· ≠ [])) = .ok (some final) ∧
        final.code = .endOfMessage ∧ final.left = [] ∧ final.rest = [] ∧
        final.parser.context.message.Same whole))

variable {http} {parser : Parser σ} {buffer : Bytes} {overload : Overload}

/-- Every overload makes a single call of http_parser. -/
theorem call_eq (stopping : http.Stopping) (coherent : parser.Coherent http) (fuel : Nat)
    (some : buffer ≠ []) (onlyHeader : Bool) :
    parser.call http overload (fuel + 1) buffer onlyHeader =
      match { parser with started := true }.appendBytes http buffer with
      | .error fault => .error (.thrown fault)
      | .ok (after, nparsed) => .ok (after, after.codeAfter http, buffer.drop nparsed) := by
  cases overload with
  | constBuffer =>
      rw [call, consume_eq stopping coherent fuel some]
      cases appended : { parser with started := true }.appendBytes http buffer with
      | error fault => rfl
      | ok result =>
          obtain ⟨after, nparsed⟩ := result
          have bound : nparsed ≤ buffer.length := by
            obtain ⟨_, _, _, count⟩ := appendBytes_ok appended
            rw [count]
            exact stopping.bounded _ _ some
          have rest : buffer.length - (buffer.length - nparsed) = nparsed := by omega
          simp only [bind, Except.bind, rest]
          rfl
  | streambuf =>
      rw [call, consumeStreambuf_eq stopping coherent fuel some]
      cases appended : { parser with started := true }.appendBytes http buffer with
      | error fault => rfl
      | ok result => rfl

variable {segment : Bytes} {rest segments : List Bytes} {after : ParserContext}

theorem Ready.call (stopping : http.Stopping) (splitting : http.Splitting)
    (ready : Ready http parser (segment :: rest) after) :
    ∃ next : Parser σ, next.machine = (http.execute parser.machine segment).state ∧
      parser.context.handle (http.execute parser.machine segment).events = .ok next.context ∧
      (∀ overload fuel onlyHeader, parser.call http overload (fuel + 1) segment onlyHeader =
        .ok (next, if rest = [] then .endOfMessage
          else if next.context.headerDone then .endOfHeader else .endOfData, [])) ∧
      (rest = [] → next.context = after) ∧ (rest ≠ [] → Ready http next rest after) := by
  obtain ⟨next, machine, handled, appended, code, last, more⟩ := ready.step stopping splitting
  refine ⟨next, machine, handled, fun overload fuel onlyHeader => ?_, fun ended => ?_, more⟩
  · rw [call_eq stopping ready.coherent fuel (ready.filled segment List.mem_cons_self), appended]
    simp only [code, List.drop_length]
  · rw [last ended]

/-- The calls for a message read it to its end. -/
theorem Ready.calls_message (stopping : http.Stopping) (splitting : http.Splitting)
    (ready : Ready http parser segments after) (overload : Overload) (fuel : Nat) :
    ∃ final, calls http overload false (fuel + 1) parser [] segments = .ok (some final) ∧
      final.code = .endOfMessage ∧ final.left = [] ∧ final.rest = [] ∧
      final.parser.context = after := by
  induction segments generalizing parser with
  | nil => exact absurd rfl ready.completes.some
  | cons segment rest ih =>
      obtain ⟨next, _, _, called, last, more⟩ := ready.call stopping splitting
      rw [calls, List.nil_append, called]
      by_cases ended : rest = []
      · refine ⟨⟨next, .endOfMessage, [], []⟩, ?_, rfl, rfl, rfl, last ended⟩
        simp [ended, bind, Except.bind, pure, Except.pure]
      · obtain ⟨final, rested, done⟩ := ih (more ended)
        refine ⟨final, ?_, done⟩
        rw [← rested]
        cases next.context.headerDone <;> simp [ended, bind, Except.bind]

/-- The calls for a header stop when the segment with its end has been parsed. -/
structure HeaderStop (http : HttpParser σ) (overload : Overload) (fuel : Nat) (parser : Parser σ)
    (head : Bytes) (segments : List Bytes) (after : ParserContext) (front : List Bytes)
    (segment : Bytes) (stop : Stop σ) : Prop where
  parts : segments = front ++ segment :: stop.rest
  before : front.flatten.length < head.length
  reached : head.length ≤ (front.flatten ++ segment).length
  called : calls http overload true (fuel + 1) parser [] segments = .ok (some stop)
  left : stop.left = []
  last : stop.rest = [] → stop.code = .endOfMessage ∧ stop.parser.context = after
  more : stop.rest ≠ [] → stop.code = .endOfHeader ∧ Ready http stop.parser stop.rest after
  body : front.flatten ++ segment = head →
    stop.parser.context.message.body = parser.context.message.body

variable {head tail : Bytes} {fuel : Nat}

theorem Ready.stops_inside (stopping : http.Stopping) (splitting : http.Splitting)
    (ready : Ready http parser (segment :: rest) after) (heads : http.Head parser.machine head)
    (inside : head <+: segment) (overload : Overload) (fuel : Nat) :
    ∃ stop, HeaderStop http overload fuel parser head (segment :: rest) after [] segment stop := by
  obtain ⟨next, _, handled, called, last, more⟩ := ready.call stopping splitting
  obtain ⟨middle, whole⟩ := inside
  have completes := ready.completes
  rw [List.flatten_cons, ← whole, List.append_assoc] at completes
  have ending : headed (http.execute parser.machine segment).events = true := by
    rw [← whole]
    exact heads.inside stopping splitting completes
  have header : next.context.headerDone = true := by
    rw [ParserContext.handle_headerDone handled, ending, Bool.or_true]
  refine ⟨⟨next, if rest = [] then .endOfMessage else .endOfHeader, [], rest⟩, rfl,
    List.length_pos_iff.mpr heads.some, ?_, ?_, rfl, fun ended => ⟨if_pos ended, last ended⟩,
    fun unended => ⟨if_neg unended, more unended⟩, fun same => ?_⟩
  · rw [← whole]
    simp
  · rw [calls, List.nil_append, called]
    by_cases ended : rest = [] <;> simp [ended, header, bind, Except.bind, pure, Except.pure]
  · have exactly : segment = head := same
    exact ParserContext.handle_bodiless handled (exactly ▸ heads.bodiless)

/-- A segment that ends within the header is passed over. -/
theorem HeaderStop.cons {next : Parser σ} {front : List Bytes} {found : Bytes} {stop : Stop σ}
    (later : HeaderStop http overload fuel next head rest after front found stop)
    (called : parser.call http overload (fuel + 1) segment true = .ok (next, .endOfData, []))
    (same : next.context.message.body = parser.context.message.body) :
    HeaderStop http overload fuel parser (segment ++ head) (segment :: rest) after
      (segment :: front) found stop := by
  have before := later.before
  have reached := later.reached
  rw [List.length_append] at reached
  refine ⟨by rw [later.parts, List.cons_append], ?_, ?_, ?_, later.left, later.last, later.more,
    fun exactly => ?_⟩
  · rw [List.flatten_cons, List.length_append, List.length_append]
    omega
  · simp only [List.flatten_cons, List.length_append]
    omega
  · rw [calls, List.nil_append, called, ← later.called]
    simp [bind, Except.bind]
  · rw [List.flatten_cons, List.append_assoc] at exactly
    rw [later.body (List.append_cancel_left exactly), same]

theorem Ready.calls_header (stopping : http.Stopping) (splitting : http.Splitting)
    (ready : Ready http parser segments after) (heads : http.Head parser.machine head)
    (text : segments.flatten = head ++ tail) (unheaded : parser.context.headerDone = false)
    (overload : Overload) (fuel : Nat) :
    ∃ front segment stop,
      HeaderStop http overload fuel parser head segments after front segment stop := by
  induction segments generalizing parser head with
  | nil => exact absurd rfl ready.completes.some
  | cons segment rest ih =>
      rw [List.flatten_cons] at text
      have starts : head <+: segment ++ rest.flatten := text ▸ List.prefix_append head tail
      rcases List.prefix_or_prefix_of_prefix starts (List.prefix_append segment rest.flatten) with
        inside | ⟨middle, rfl⟩
      · exact ⟨[], segment, ready.stops_inside stopping splitting heads inside overload fuel⟩
      · by_cases filled : middle = []
        · subst filled
          rw [List.append_nil] at heads ⊢
          exact ⟨[], segment, ready.stops_inside stopping splitting heads (List.prefix_refl segment)
            overload fuel⟩
        · have remaining : rest.flatten = middle ++ tail := by
            rw [List.append_assoc] at text
            exact List.append_cancel_left text
          have unended : rest ≠ [] := by
            intro none
            rw [none, List.flatten_nil] at remaining
            exact filled (List.append_eq_nil_iff.mp remaining.symm).1
          obtain ⟨next, machine, handled, called, _, more⟩ := ready.call stopping splitting
          have completes := ready.completes
          rw [List.flatten_cons, remaining] at completes
          obtain ⟨early, bodiless, heading⟩ := heads.rest stopping splitting completes
            (ready.filled segment List.mem_cons_self) filled
          have unread : next.context.headerDone = false := by
            rw [ParserContext.handle_headerDone handled, unheaded, early, Bool.or_false]
          obtain ⟨front, found, stop, later⟩ :=
            ih (more unended) (machine ▸ heading) remaining unread
          refine ⟨segment :: front, found, stop, later.cons ?_ ?_⟩
          · rw [called, if_neg unended, unread]
            rfl
          · exact ParserContext.handle_bodiless handled bodiless

theorem ready_of_parsed (stopping : http.Stopping) (splitting : http.Splitting) {fuel : Nat}
    {whole : Parser σ}
    (parsed : (begin http .new).call http overload (fuel + 1) segments.flatten false =
      .ok (whole, .endOfMessage, []))
    (nonempty : segments.flatten ≠ []) (filled : ∀ segment ∈ segments, segment ≠ []) :
    ∃ after, Ready http (begin http .new) segments after ∧ after.message.Same whole.context.message := by
  rw [call_eq stopping (begin_coherent stopping .new) fuel nonempty] at parsed
  cases appended : Parser.appendBytes http { begin http .new with started := true }
      segments.flatten with
  | error fault =>
      rw [appended] at parsed
      cases parsed
  | ok result =>
      obtain ⟨done, nparsed⟩ := result
      rw [appended] at parsed
      simp only [Except.ok.injEq, Prod.mk.injEq] at parsed
      obtain ⟨rfl, code, left⟩ := parsed
      obtain ⟨handled, machine, _, count⟩ := appendBytes_ok appended
      have paused : http.errno done.machine = .paused := by
        cases stop : http.errno done.machine with
        | paused => rfl
        | ok => cases header : done.context.headerDone <;> simp [codeAfter, stop, header] at code
        | failed number => simp [codeAfter, stop] at code
      have completes : http.Completes http.init segments.flatten := by
        refine ⟨nonempty, machine ▸ paused, ?_⟩
        have bound := stopping.bounded http.init segments.flatten nonempty
        have enough := List.drop_eq_nil_iff.mp left
        rw [count] at enough
        exact Nat.le_antisymm bound enough
      obtain ⟨after, taken, like⟩ := ParserContext.handle_finer (.refl BufferChain.empty_built)
        (completes.reports_finer stopping splitting filled) handled
      exact ⟨after, ⟨completes, filled, stopping.fresh, rfl, taken⟩, like.message⟩

/-- The segment in which a boundary is first reached ends there. -/
theorem flatten_eq_of_boundary {front later consumed rest : List Bytes} {segment head : Bytes}
    (parts : front ++ segment :: later = consumed ++ rest) (given : consumed.flatten = head)
    (before : front.flatten.length < head.length)
    (reached : head.length ≤ (front.flatten ++ segment).length) :
    front.flatten ++ segment = head := by
  rcases List.append_eq_append_iff.mp parts with ⟨extra, same, tail⟩ | ⟨extra, same, _⟩
  · cases extra with
    | nil =>
        rw [List.append_nil] at same
        rw [← given, same] at before
        exact absurd before (Nat.lt_irrefl _)
    | cons first others =>
        obtain ⟨rfl, _⟩ := List.cons.inj tail
        rw [same, List.flatten_append, List.flatten_cons, ← List.append_assoc] at given
        have empty : others.flatten = [] := by
          rw [← given, List.length_append] at reached
          exact List.length_eq_zero_iff.mp (by omega)
        rw [empty, List.append_nil] at given
        exact given
  · rw [same, List.flatten_append, given, List.length_append] at before
    omega

/-- Reading a header only stops at the header exactly when some segment ends with the
blank line. -/
theorem header_only_stops_iff {σ : Type} {http : HttpParser σ} (stopping : http.Stopping)
    (splitting : http.Splitting) (overload : Overload) (fuel : Nat) {head tail : Bytes}
    (heads : http.Head http.init head) {whole : Parser σ}
    (parsed : (begin http .new).call http overload (fuel + 1) (head ++ tail) false =
      .ok (whole, .endOfMessage, []))
    {segments : List Bytes} (text : segments.flatten = head ++ tail)
    (filled : ∀ segment ∈ segments, segment ≠ []) :
    StopsAtHeader http overload (fuel + 1) head tail whole.context.message segments ↔
      ∃ front rest, segments = front ++ rest ∧ front.flatten = head := by
  have nonempty : segments.flatten ≠ [] := by
    rw [text]
    exact List.append_ne_nil_of_left_ne_nil heads.some tail
  obtain ⟨after, ready, same⟩ :=
    ready_of_parsed stopping splitting (text ▸ parsed) nonempty filled
  obtain ⟨front, segment, stop, parts, before, reached, stopped, left, last, more, body⟩ :=
    ready.calls_header stopping splitting heads text rfl overload fuel
  constructor
  · intro stops
    obtain ⟨other, again, _, ⟨consumed, rest, given⟩, _⟩ := stops
    obtain rfl : stop = other := by
      rw [stopped] at again
      exact Option.some.inj (Except.ok.inj again)
    rw [left, List.append_nil] at given
    exact ⟨consumed, stop.rest, rest, given⟩
  · intro boundary
    obtain ⟨consumed, rest, cut, given⟩ := boundary
    have exactly : front.flatten ++ segment = head :=
      flatten_eq_of_boundary (parts.symm.trans cut) given before reached
    refine ⟨stop, stopped, ?_, ⟨front ++ [segment], ?_, ?_⟩, ?_⟩
    · rw [body exactly]
      rfl
    · rw [parts, List.append_assoc]
      rfl
    · rw [List.flatten_append, List.flatten_singleton, left, List.append_nil, exactly]
    · by_cases ended : stop.rest = []
      · obtain ⟨code, context⟩ := last ended
        refine .inl ⟨code, ?_, context ▸ same⟩
        rw [parts, ended, List.flatten_append, List.flatten_singleton, exactly] at text
        simpa using text
      · obtain ⟨code, onward⟩ := more ended
        obtain ⟨final, called, finished, none, spent, context⟩ :=
          onward.calls_message stopping splitting overload fuel
        have remaining : (stop.left :: stop.rest).filter (· ≠ []) = stop.rest := by
          rw [left]
          simpa using onward.filled
        exact .inr ⟨code, final, by rw [remaining, called], finished, none, spent, context ▸ same⟩

def postHead : Bytes :=
  ascii "POST /a HTTP/1.1\r\nHost: h.x\r\nContent-Length: 3\r\n\r\n"

theorem postHead_heads : (scripted [.post]).Head (scripted [.post]).init postHead where
  some := by decide
  complete := by decide +kernel
  first count positive short := by
    have within : ∀ count < postHead.length, 0 < count →
        headed ((scripted [.post]).execute (scripted [.post]).init (postHead.take count)).events =
          false := by decide +kernel
    exact within count short positive
  bodiless piece := by
    have plain : ((scripted [.post]).execute (scripted [.post]).init postHead).events =
        withoutBody ((scripted [.post]).execute (scripted [.post]).init postHead).events := by
      decide +kernel
    rw [plain]
    exact body_not_mem_withoutBody _ piece

/-- A message whose head and body come in two reads. -/
theorem head_and_body_read_apart :
    ∃ whole, (begin (scripted [.post]) .new).call (scripted [.post]) .streambuf 1
        (postHead ++ ascii "abc") false = .ok (whole, .endOfMessage, []) ∧
      StopsAtHeader (scripted [.post]) .streambuf 1 postHead (ascii "abc") whole.context.message
        [postHead, ascii "abc"] := by
  obtain ⟨whole, parsed⟩ : ∃ whole, (begin (scripted [.post]) .new).call (scripted [.post])
      .streambuf 1 (postHead ++ ascii "abc") false = .ok (whole, .endOfMessage, []) :=
    ⟨_, rfl⟩
  refine ⟨whole, parsed, (header_only_stops_iff (scripted_stopping _) (scripted_splitting _)
    .streambuf 0 postHead_heads parsed (by simp) ?_).mpr ⟨[postHead], [ascii "abc"], rfl, by simp⟩⟩
  decide

/-- With the first byte of the body behind the blank line, the header is reported with
that byte in the message and nothing left. -/
theorem body_read_with_head :
    ∃ whole stop, (begin (scripted [.post]) .new).call (scripted [.post]) .constBuffer 1
        (postHead ++ ascii "abc") false = .ok (whole, .endOfMessage, []) ∧
      calls (scripted [.post]) .constBuffer true 1 (begin (scripted [.post]) .new) []
        [postHead ++ ascii "a", ascii "bc"] = .ok (some stop) ∧ stop.code = .endOfHeader ∧
      stop.parser.context.message.body.toString = ascii "a" ∧ stop.left = [] ∧
      ¬ StopsAtHeader (scripted [.post]) .constBuffer 1 postHead (ascii "abc")
        whole.context.message [postHead ++ ascii "a", ascii "bc"] := by
  refine ⟨_, _, rfl, rfl, rfl, rfl, rfl, fun stops => ?_⟩
  obtain ⟨stop, called, body, _⟩ := stops
  cases called
  cases body

end Parser

end Marvin.Http
