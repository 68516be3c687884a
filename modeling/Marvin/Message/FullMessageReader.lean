import Marvin.Http.Parser

namespace Marvin.Message

open Marvin.Data Marvin.Http

/-! # The full message reader

`marvin/message/full_msg_rdr.cpp`, as `MessageReaderV2` drives it: every read
gets a fresh message.  The owner's callback is represented by what it does at
each of its invocations; a read started later is an input of its own.  The
`while` loop of `p_parse_some` takes a fuel argument, and since the callback may
start the next read from inside, `asyncReadMessage` is given the parse function
to enter.
-/

namespace ReadBufferStrategy

def headerBuffer : Nat := 256 * 4
def bodyBufferMin : Nat := 256 * 4 * 8
def systemRmem : Nat := 212922
def bodyBufferMax : Nat := 256 * 4 * 256

/-- The recommended size together with the new `m_current_body_buffer_size`.
`size_t` arithmetic is modulo `2^64`. -/
def recommendedBufferSize (current : Nat) (message : MessageBase) (headerDone : Bool) :
    Nat × Nat :=
  if !headerDone then (headerBuffer, 0)
  else
    let size :=
      if current = 0 then
        match message.header HeaderFields.contentLength with
        | some value => min (((atoi value) + 100) % 2 ^ 64).toNat systemRmem
        | none => bodyBufferMin
      else if current < min systemRmem bodyBufferMax then 2 * current
      else current
    (size, size)

end ReadBufferStrategy

/-- An invocation of a `DoneCallback`: the call of `async_read_message` it
answers, the error passed, and the message as it is then. -/
structure Completion where
  call : Nat
  err : ErrorType
  message : MessageBase
deriving DecidableEq, Repr

structure FullMessageReader (σ : Type) where
  parser : Parser σ
  streambuffer : Bytes
  currentBodyBufferSize : Nat
  /-- The number of calls of `async_read_message` so far; the last of them is
  the one whose callback is stored in `m_read_cb`. -/
  calls : Nat
  /-- The buffer sizes of the socket reads in progress. -/
  outstanding : List Nat
  log : List Completion
deriving DecidableEq, Repr

/-- What the owner's callback does before it returns. -/
inductive Reply where
  | readAgain
  | leave
deriving DecidableEq, Repr

/-- The owner's behaviour, by the number of earlier callback invocations. -/
abbrev Owner := Nat → Reply

/-- How an entry into the reader ends: it returns, an exception leaves it, or
the fuel of the model is used up.  The callbacks made so far are kept. -/
inductive Outcome (σ : Type) where
  | returned (reader : FullMessageReader σ)
  | thrown (fault : Fault) (log : List Completion)
  | outOfFuel (log : List Completion)
deriving DecidableEq, Repr

namespace Outcome

variable {σ : Type}

def log : Outcome σ → List Completion
  | .returned reader => reader.log
  | .thrown _ log => log
  | .outOfFuel log => log

def andThen (outcome : Outcome σ) (next : FullMessageReader σ → Outcome σ) : Outcome σ :=
  match outcome with
  | .returned reader => next reader
  | .thrown fault log => .thrown fault log
  | .outOfFuel log => .outOfFuel log

end Outcome

namespace FullMessageReader

variable {σ : Type} (http : HttpParser σ) (owner : Owner)

/-- A new reader.  `m_current_body_buffer_size` is not initialised. -/
def new (currentBodyBufferSize : Nat) : FullMessageReader σ where
  parser := .begin http .new
  streambuffer := []
  currentBodyBufferSize := currentBodyBufferSize
  calls := 0
  outstanding := []
  log := []

def pReadSome (reader : FullMessageReader σ) : FullMessageReader σ :=
  let (size, current) := ReadBufferStrategy.recommendedBufferSize reader.currentBodyBufferSize
    reader.parser.context.message reader.parser.context.headerDone
  { reader with
    currentBodyBufferSize := current
    outstanding := reader.outstanding ++ [size] }

def asyncReadMessage (parse : FullMessageReader σ → Outcome σ) (reader : FullMessageReader σ)
    (message : MessageBase) : Outcome σ :=
  let reader := { reader with calls := reader.calls + 1, parser := .begin http message }
  if reader.streambuffer ≠ [] then parse reader
  else .returned { reader with parser := .begin http message }.pReadSome

def readCb (parse : FullMessageReader σ → Outcome σ) (reader : FullMessageReader σ)
    (err : ErrorType) : Outcome σ :=
  let answered := { reader with
    log := reader.log ++ [⟨reader.calls, err, reader.parser.context.message⟩] }
  match owner reader.log.length with
  | .readAgain => answered.asyncReadMessage http parse .new
  | .leave => .returned answered

def pOnParseError (parse : FullMessageReader σ → Outcome σ) (reader : FullMessageReader σ) :
    Outcome σ :=
  reader.readCb http owner parse .parserError

def pOnReadError (parse : FullMessageReader σ → Outcome σ) (reader : FullMessageReader σ)
    (err : ErrorType) : Outcome σ :=
  reader.readCb http owner parse err

def pOnDone (parse : FullMessageReader σ → Outcome σ) (reader : FullMessageReader σ) :
    Outcome σ :=
  reader.readCb http owner parse .ok

def pParseSome (fuel : Nat) (reader : FullMessageReader σ) : Outcome σ :=
  if reader.streambuffer = [] then .returned reader
  else
    match fuel with
    | 0 => .outOfFuel reader.log
    | rest + 1 =>
        match reader.parser.consumeStreambuf http (rest + 1) reader.streambuffer false with
        | .error (.thrown fault) => .thrown fault reader.log
        | .error .outOfFuel => .outOfFuel reader.log
        | .ok (parser, streambuffer, value) =>
            let reader := { reader with parser, streambuffer }
            let outcome :=
              match value.returnCode with
              | .error => reader.pOnParseError http owner (pParseSome rest)
              | .endOfData | .endOfHeader => .returned reader.pReadSome
              | .endOfMessage => reader.pOnDone http owner (pParseSome rest)
            outcome.andThen (pParseSome rest)

def pOnEof (parse : FullMessageReader σ → Outcome σ) (reader : FullMessageReader σ) : Outcome σ :=
  match reader.parser.endOfInput http with
  | .error fault => .thrown fault reader.log
  | .ok (parser, code) =>
      let reader := { reader with parser }
      match code with
      | .error | .endOfData => reader.pOnParseError http owner parse
      | .endOfHeader | .endOfMessage => reader.pOnDone http owner parse

/-- What happens to a reader: its owner starts a read, or the socket read in
progress completes. -/
inductive Input where
  | start
  | data (bytes : Bytes)
  | readError (err : ErrorType) (bytesTransfered : Nat)
deriving DecidableEq, Repr

/-- A read is started only when none is in progress, and only a socket read in
progress completes. -/
def Enabled (reader : FullMessageReader σ) : Input → Prop
  | .start => reader.outstanding = []
  | .data _ => reader.outstanding ≠ []
  | .readError err _ => reader.outstanding ≠ [] ∧ err ≠ .ok

instance (reader : FullMessageReader σ) : (input : Input) → Decidable (reader.Enabled input)
  | .start => inferInstanceAs (Decidable (reader.outstanding = []))
  | .data _ => inferInstanceAs (Decidable (reader.outstanding ≠ []))
  | .readError err _ => inferInstanceAs (Decidable (reader.outstanding ≠ [] ∧ err ≠ .ok))

def step (fuel : Nat) (reader : FullMessageReader σ) : Input → Outcome σ
  | .start => reader.asyncReadMessage http (pParseSome http owner fuel) .new
  | .data bytes =>
      pParseSome http owner fuel { reader with
        outstanding := reader.outstanding.tail
        streambuffer := reader.streambuffer ++ bytes }
  | .readError err bytesTransfered =>
      let reader := { reader with outstanding := reader.outstanding.tail }
      if bytesTransfered = 0 then
        if reader.parser.started && !reader.parser.context.messageDone then
          reader.pOnEof http owner (pParseSome http owner fuel)
        else reader.pOnReadError http owner (pParseSome http owner fuel) err
      else reader.pOnReadError http owner (pParseSome http owner fuel) err

end FullMessageReader

end Marvin.Message
