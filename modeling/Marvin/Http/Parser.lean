import Marvin.Http.HttpParser

namespace Marvin.Http

open Marvin.Data Marvin.Buffer

/-! # The message parser

`marvin/http/parser.cpp`.  `ParserContext` is what the callbacks work on: the
members of `Parser` and the message container passed to `begin`.  The loops of
`consume` take a fuel argument, one unit for each iteration.
-/

inductive HeaderState where
  | nothing
  | field
  | value
deriving DecidableEq, Repr

structure ParserContext where
  headerState : HeaderState
  statusStringbuf : Bytes
  urlStringbuf : Bytes
  nameStringbuf : Bytes
  valueStringbuf : Bytes
  headerDone : Bool
  messageDone : Bool
  message : MessageBase
deriving DecidableEq, Repr

namespace ParserContext

/-- `p_initialize`, followed by the assignment of the message. -/
def pInitialize (message : MessageBase) : ParserContext where
  headerState := .nothing
  statusStringbuf := []
  urlStringbuf := []
  nameStringbuf := []
  valueStringbuf := []
  headerDone := false
  messageDone := false
  message := message

def onMessageBegin (context : ParserContext) : ParserContext :=
  { context with
    statusStringbuf := []
    urlStringbuf := []
    nameStringbuf := []
    valueStringbuf := [] }

def onUrlData (context : ParserContext) (piece : Bytes) : ParserContext :=
  { context with
    message := context.message.setIsRequest true
    urlStringbuf := context.urlStringbuf ++ piece }

def onStatusData (context : ParserContext) (code : Nat) (piece : Bytes) : ParserContext :=
  { context with
    message := (context.message.setIsRequest false).setStatusCode (some code)
    statusStringbuf := context.statusStringbuf ++ piece }

/-- Files the pending header line through the pointer overload of `header`. -/
def commitLine (context : ParserContext) : ParserContext :=
  if context.nameStringbuf ≠ [] then
    { context with
      message := context.message.setHeaderPtr context.nameStringbuf context.valueStringbuf
      nameStringbuf := []
      valueStringbuf := [] }
  else context

def onHeaderFieldData (context : ParserContext) (piece : Bytes) : ParserContext :=
  let context :=
    match context.headerState with
    | .nothing | .value => context.commitLine
    | .field => context
  { context with nameStringbuf := context.nameStringbuf ++ piece, headerState := .field }

def onHeaderValueData (context : ParserContext) (piece : Bytes) : Except Fault ParserContext :=
  match context.headerState with
  | .field => return { context with valueStringbuf := piece, headerState := .value }
  | .value =>
      return { context with
        valueStringbuf := context.valueStringbuf ++ piece, headerState := .value }
  | .nothing => throw .unexpectedHeaderState

/-- Files the last header line through the value overload of `header`. -/
def commitLastLine (context : ParserContext) : ParserContext :=
  if context.nameStringbuf ≠ [] then
    { context with
      message := context.message.setHeader context.nameStringbuf context.valueStringbuf
      nameStringbuf := []
      valueStringbuf := [] }
  else context

def onHeadersComplete (context : ParserContext) (method : HttpMethod) (major minor : Nat) :
    ParserContext :=
  let context := context.commitLastLine
  let message := context.message.setVersion major minor
  let message :=
    if context.urlStringbuf = [] then message
    else (message.setMethod (some method)).setTarget context.urlStringbuf
  let message :=
    if context.statusStringbuf = [] then message else message.setReason context.statusStringbuf
  { context with message, headerDone := true }

def onBodyData (context : ParserContext) (piece : Bytes) : Except Fault ParserContext := do
  let body ← context.message.body.append piece
  return { context with message := { context.message with body } }

def onMessageComplete (context : ParserContext) : ParserContext :=
  { context with messageDone := true }

def dispatch (context : ParserContext) : Event → Except Fault ParserContext
  | .messageBegin => pure context.onMessageBegin
  | .url piece => pure (context.onUrlData piece)
  | .status code piece => pure (context.onStatusData code piece)
  | .headerField piece => pure (context.onHeaderFieldData piece)
  | .headerValue piece => context.onHeaderValueData piece
  | .headersComplete method major minor => pure (context.onHeadersComplete method major minor)
  | .body piece => context.onBodyData piece
  | .chunkHeader => pure context
  | .chunkComplete => pure context
  | .messageComplete => pure context.onMessageComplete

def handle (context : ParserContext) (events : List Event) : Except Fault ParserContext :=
  events.foldlM dispatch context

@[simp] theorem handle_nil (context : ParserContext) : context.handle [] = .ok context := rfl

theorem handle_cons (context : ParserContext) (event : Event) (events : List Event) :
    context.handle (event :: events) = (context.dispatch event).bind (·.handle events) := rfl

theorem handle_cons_of_ok {context middle : ParserContext} {event : Event}
    (first : context.dispatch event = .ok middle) (events : List Event) :
    context.handle (event :: events) = middle.handle events := by
  rw [handle_cons, first]
  rfl

theorem handle_append (context : ParserContext) (left right : List Event) :
    context.handle (left ++ right) = (context.handle left).bind (·.handle right) :=
  List.foldlM_append

theorem handle_append_of_ok {context middle : ParserContext} {left : List Event}
    (first : context.handle left = .ok middle) (right : List Event) :
    context.handle (left ++ right) = middle.handle right := by
  rw [handle_append, first]
  rfl

theorem handle_cons_ok {context after : ParserContext} {event : Event} {events : List Event}
    (handled : context.handle (event :: events) = .ok after) :
    ∃ middle, context.dispatch event = .ok middle ∧ middle.handle events = .ok after := by
  rw [handle_cons] at handled
  exact exists_ok_of_bind handled

theorem handle_append_ok {context after : ParserContext} {left right : List Event}
    (handled : context.handle (left ++ right) = .ok after) :
    ∃ middle, context.handle left = .ok middle ∧ middle.handle right = .ok after := by
  rw [handle_append] at handled
  exact exists_ok_of_bind handled

/-- An invariant that every callback keeps is kept by a whole report. -/
theorem handle_induction {motive : ParserContext → Prop}
    (step : ∀ {context after : ParserContext} {event : Event}, motive context →
      context.dispatch event = .ok after → motive after)
    {context after : ParserContext} {events : List Event} (start : motive context)
    (handled : context.handle events = .ok after) : motive after := by
  induction events generalizing context with
  | nil =>
      obtain rfl : context = after := by simpa using handled
      exact start
  | cons event rest ih =>
      obtain ⟨middle, first, later⟩ := handle_cons_ok handled
      exact ih (step start first) later

@[simp] theorem commitLine_messageDone (context : ParserContext) :
    context.commitLine.messageDone = context.messageDone := by
  unfold commitLine
  split <;> rfl

@[simp] theorem commitLastLine_messageDone (context : ParserContext) :
    context.commitLastLine.messageDone = context.messageDone := by
  unfold commitLastLine
  split <;> rfl

theorem dispatch_body_cases {context after : ParserContext} {piece : Bytes}
    (handled : context.dispatch (.body piece) = .ok after) :
    ∃ body, context.message.body.append piece = .ok body ∧
      after = { context with message := { context.message with body } } := by
  obtain ⟨body, appended, rest⟩ := exists_ok_of_bind handled
  exact ⟨body, appended, (Except.ok.inj rest).symm⟩

theorem dispatch_messageDone {context after : ParserContext} {event : Event}
    (handled : context.dispatch event = .ok after) :
    after.messageDone = (context.messageDone || decide (event = .messageComplete)) := by
  cases event with
  | messageComplete => cases handled; simp [onMessageComplete]
  | headerField piece =>
      cases handled
      cases state : context.headerState <;> simp [onHeaderFieldData, state]
  | headerValue piece =>
      cases state : context.headerState <;>
        simp [dispatch, onHeaderValueData, state, pure, Except.pure, throw, throwThe,
          MonadExceptOf.throw] at handled
      all_goals subst handled; simp
  | body piece =>
      obtain ⟨_, _, rfl⟩ := dispatch_body_cases handled
      simp
  | messageBegin | url | status | chunkHeader | chunkComplete =>
      cases handled
      simp [onMessageBegin, onUrlData, onStatusData]
  | headersComplete method major minor =>
      cases handled
      simp [onHeadersComplete]

theorem handle_messageDone {context after : ParserContext} {events : List Event}
    (handled : context.handle events = .ok after) :
    after.messageDone = (context.messageDone || decide (.messageComplete ∈ events)) := by
  induction events generalizing context with
  | nil =>
      obtain rfl : context = after := by simpa using handled
      simp
  | cons event rest ih =>
      obtain ⟨middle, first, later⟩ := handle_cons_ok handled
      rw [ih later, dispatch_messageDone first, Bool.or_assoc]
      simp [eq_comm]

theorem handle_unfinished {context after : ParserContext} {events : List Event}
    (handled : context.handle events = .ok after) (unfinished : context.messageDone = false)
    (quiet : .messageComplete ∉ events) : after.messageDone = false := by
  rw [handle_messageDone handled, unfinished]
  simpa using quiet

end ParserContext

structure Parser (σ : Type) where
  machine : σ
  context : ParserContext
  started : Bool
deriving DecidableEq, Repr

inductive ReturnCode where
  | error
  | endOfHeader
  | endOfMessage
  | endOfData
deriving DecidableEq, Repr

structure ReturnValue where
  returnCode : ReturnCode
  bytesRemaining : Nat
deriving DecidableEq, Repr

/-- Why a run of the code produced no value: an exception left it, or the fuel
given to a loop of the model was used up. -/
inductive Abort where
  | thrown (fault : Fault)
  | outOfFuel
deriving DecidableEq, Repr

namespace Parser

variable {σ : Type} (http : HttpParser σ)

def begin (message : MessageBase) : Parser σ where
  machine := http.init
  context := .pInitialize message
  started := false

def appendBytes (parser : Parser σ) (data : Bytes) : Except Fault (Parser σ × Nat) := do
  let run := http.execute parser.machine data
  let context ← parser.context.handle run.events
  return ({ parser with machine := run.state, context }, run.nparsed)

def isError (parser : Parser σ) : Bool :=
  match http.errno parser.machine with
  | .ok | .paused => false
  | .failed _ => true

/-- The loop of `consume(const void*, std::size_t, bool)`. -/
def consumeLoop (onlyHeader : Bool) (buffer : Bytes) (fuel totalParsed : Nat)
    (value : ReturnValue) (parser : Parser σ) : Except Abort (Parser σ × ReturnValue) :=
  if totalParsed < buffer.length then
    match fuel with
    | 0 => throw .outOfFuel
    | fuel + 1 => do
        let (parser, nparsed) ←
          (parser.appendBytes http (buffer.drop totalParsed)).mapError .thrown
        let totalParsed := totalParsed + nparsed
        let value := { value with bytesRemaining := buffer.length - nparsed }
        if parser.isError http then return (parser, { value with returnCode := .error })
        else if parser.context.messageDone then
          return (parser, { value with returnCode := .endOfMessage })
        else if parser.context.headerDone then
          let value := { value with returnCode := .endOfHeader }
          if onlyHeader then return (parser, value)
          else consumeLoop onlyHeader buffer fuel totalParsed value parser
        else consumeLoop onlyHeader buffer fuel totalParsed value parser
  else return (parser, value)

def consume (parser : Parser σ) (fuel : Nat) (buffer : Bytes) (onlyHeader : Bool) :
    Except Abort (Parser σ × ReturnValue) :=
  consumeLoop http onlyHeader buffer fuel 0 ⟨.endOfData, buffer.length⟩
    { parser with started := true }

/-- The loop of `consume(boost::asio::streambuf&, bool)`. -/
def consumeStreambufLoop (onlyHeader : Bool) (fuel : Nat) (value : ReturnValue)
    (parser : Parser σ) (streambuffer : Bytes) :
    Except Abort (Parser σ × Bytes × ReturnValue) :=
  if streambuffer = [] then return (parser, streambuffer, value)
  else
    match fuel with
    | 0 => throw .outOfFuel
    | rest + 1 => do
        let (parser, value) ← parser.consume http (rest + 1) streambuffer onlyHeader
        let streambuffer := streambuffer.drop (streambuffer.length - value.bytesRemaining)
        match value.returnCode with
        | .error | .endOfMessage => return (parser, streambuffer, value)
        | .endOfHeader =>
            if onlyHeader then return (parser, streambuffer, value)
            else consumeStreambufLoop onlyHeader rest value parser streambuffer
        | .endOfData => consumeStreambufLoop onlyHeader rest value parser streambuffer

/-- `ReturnValue rv{}` holds the first enumerator, `error`. -/
def consumeStreambuf (parser : Parser σ) (fuel : Nat) (streambuffer : Bytes) (onlyHeader : Bool) :
    Except Abort (Parser σ × Bytes × ReturnValue) :=
  consumeStreambufLoop http onlyHeader fuel ⟨.error, 0⟩ { parser with started := true } streambuffer

def endOfInput (parser : Parser σ) : Except Fault (Parser σ × ReturnCode) := do
  if parser.context.messageDone then return (parser, .endOfData)
  else
    let parser ←
      if parser.started then do
        let (parser, _) ← parser.appendBytes http []
        pure parser
      else pure parser
    if parser.isError http then return (parser, .error)
    else if parser.context.messageDone then return (parser, .endOfMessage)
    else if parser.context.headerDone then return (parser, .endOfHeader)
    else return (parser, .endOfData)

/-- The flag the callbacks set agrees with the state http_parser is left in. -/
def Coherent (parser : Parser σ) : Prop :=
  parser.context.messageDone = true ↔ http.errno parser.machine = .paused

/-- The code `consume` returns for the state it stops in. -/
def codeAfter (parser : Parser σ) : ReturnCode :=
  match http.errno parser.machine with
  | .failed _ => .error
  | .paused => .endOfMessage
  | .ok => if parser.context.headerDone then .endOfHeader else .endOfData

variable {http} {parser after : Parser σ} {data buffer : Bytes} {nparsed : Nat}

theorem appendBytes_ok (appended : parser.appendBytes http data = .ok (after, nparsed)) :
    parser.context.handle (http.execute parser.machine data).events = .ok after.context ∧
      after.machine = (http.execute parser.machine data).state ∧
      after.started = parser.started ∧
      nparsed = (http.execute parser.machine data).nparsed := by
  obtain ⟨context, handled, rest⟩ := exists_ok_of_bind appended
  cases rest
  exact ⟨handled, rfl, rfl, rfl⟩

theorem begin_coherent (laws : http.Stopping) (message : MessageBase) :
    (begin http message).Coherent http := by
  simp [Coherent, begin, ParserContext.pInitialize, laws.fresh]

theorem appendBytes_stopped (laws : http.Stopping) (halted : http.errno parser.machine ≠ .ok)
    (data : Bytes) : parser.appendBytes http data = .ok (parser, 0) := by
  simp [appendBytes, laws.sticky parser.machine data halted, bind, Except.bind, pure, Except.pure]

theorem appendBytes_coherent (laws : http.Stopping) (coherent : parser.Coherent http)
    (appended : parser.appendBytes http data = .ok (after, nparsed)) : after.Coherent http := by
  by_cases going : http.errno parser.machine = .ok
  · obtain ⟨handled, machine, _, _⟩ := appendBytes_ok appended
    have unfinished : parser.context.messageDone = false := by
      rw [← Bool.not_eq_true]
      intro done
      rw [coherent.mp done] at going
      cases going
    rw [Coherent, machine, laws.completed parser.machine data going,
      ParserContext.handle_messageDone handled, unfinished]
    simp
  · rw [appendBytes_stopped laws going] at appended
    cases appended
    exact coherent

theorem appendBytes_whole (laws : http.Stopping)
    (appended : parser.appendBytes http data = .ok (after, nparsed))
    (going : http.errno after.machine = .ok) : nparsed = data.length := by
  obtain ⟨_, machine, _, count⟩ := appendBytes_ok appended
  rw [count]
  exact laws.whole _ _ (machine ▸ going)

theorem consumeLoop_done (onlyHeader : Bool) (fuel : Nat) (value : ReturnValue) :
    consumeLoop http onlyHeader buffer fuel buffer.length value parser = .ok (parser, value) := by
  rw [consumeLoop.eq_def, if_neg (Nat.lt_irrefl _)]
  rfl

theorem consumeStreambufLoop_nil (onlyHeader : Bool) (fuel : Nat) (value : ReturnValue) :
    consumeStreambufLoop http onlyHeader fuel value parser [] = .ok (parser, [], value) := by
  rw [consumeStreambufLoop.eq_def, if_pos rfl]
  rfl

/-- A call of `consume` makes a single call of http_parser. -/
theorem consume_eq (laws : http.Stopping) (coherent : parser.Coherent http) (fuel : Nat)
    (some : buffer ≠ []) {onlyHeader : Bool} :
    parser.consume http (fuel + 1) buffer onlyHeader =
      match { parser with started := true }.appendBytes http buffer with
      | .error fault => .error (.thrown fault)
      | .ok (after, nparsed) => .ok (after, ⟨after.codeAfter http, buffer.length - nparsed⟩) := by
  have long : 0 < buffer.length := List.length_pos_iff.mpr some
  have ready : Coherent http { parser with started := true } := coherent
  rw [consume, consumeLoop, if_pos long]
  simp only [List.drop_zero]
  cases appended : { parser with started := true }.appendBytes http buffer with
  | error fault => rfl
  | ok result =>
      obtain ⟨after, nparsed⟩ := result
      have flag : after.Coherent http := appendBytes_coherent laws ready appended
      cases stop : http.errno after.machine with
      | failed code =>
          simp [isError, codeAfter, stop, Except.mapError, bind, Except.bind, pure, Except.pure]
      | paused =>
          have done := flag.mpr stop
          simp [isError, codeAfter, stop, done, Except.mapError, bind, Except.bind, pure, Except.pure]
      | ok =>
          have unfinished : after.context.messageDone = false := by
            rw [← Bool.not_eq_true]
            intro done
            rw [flag.mp done] at stop
            cases stop
          have whole : nparsed = buffer.length := appendBytes_whole laws appended stop
          subst whole
          cases head : after.context.headerDone <;> cases onlyHeader <;>
            simp [isError, codeAfter, stop, unfinished, head, consumeLoop_done, Except.mapError, bind,
              Except.bind, pure, Except.pure]

theorem consumeStreambuf_eq (laws : http.Stopping) (coherent : parser.Coherent http) (fuel : Nat)
    (some : buffer ≠ []) {onlyHeader : Bool} :
    parser.consumeStreambuf http (fuel + 1) buffer onlyHeader =
      match { parser with started := true }.appendBytes http buffer with
      | .error fault => .error (.thrown fault)
      | .ok (after, nparsed) =>
          .ok (after, buffer.drop nparsed, ⟨after.codeAfter http, buffer.length - nparsed⟩) := by
  have ready : Coherent http { parser with started := true } := coherent
  rw [consumeStreambuf, consumeStreambufLoop, if_neg some, consume_eq laws ready fuel some]
  cases appended : { parser with started := true }.appendBytes http buffer with
  | error fault => rfl
  | ok result =>
      obtain ⟨after, nparsed⟩ := result
      have bound : nparsed ≤ buffer.length := by
        obtain ⟨_, _, _, count⟩ := appendBytes_ok appended
        rw [count]
        exact laws.bounded _ _ some
      have rest : buffer.length - (buffer.length - nparsed) = nparsed := by omega
      simp only [bind, Except.bind, rest]
      cases stop : http.errno after.machine with
      | failed code => simp [codeAfter, stop, pure, Except.pure]
      | paused => simp [codeAfter, stop, pure, Except.pure]
      | ok =>
          have whole : nparsed = buffer.length := appendBytes_whole laws appended stop
          subst whole
          cases head : after.context.headerDone <;> cases onlyHeader <;>
            simp [codeAfter, stop, head, consumeStreambufLoop_nil, pure, Except.pure]

end Parser

end Marvin.Http
