import Marvin.Collector.CoutCollector
import Marvin.Data.Regex

namespace Marvin.Collector

open Marvin.Data Marvin.Http

/-! # The pipe collector

`marvin/collector/pipe_collector.cpp`.  A body is written if one of two expressions
is found in the content type.  The second one, which is for the applications, ends
with a delimiter that is none in C++: it asks for a slash behind the end of the text.
-/

namespace PipeCollector

/-- `^text\/(.)*$` and `^application\/(.)*$/`. -/
def regexs : List (Regex UInt8) :=
  [.seq .start (.word (· == ·) (ascii "text/") (.seq (.star (.one notLineEnd)) .finish)),
    .seq .start (.word (· == ·) (ascii "application/") (.seq (.star (.one notLineEnd))
      (.seq .finish (.word (· == ·) (ascii "/") .empty))))]

def headerValueMatched (value : Bytes) : Bool :=
  regexs.any fun regex => regex.search value

def bodyIsCollectable (message : MessageBase) : Bool :=
  match message.header HeaderFields.contentType with
  | some value => headerValueMatched value
  | none => false

def text (methodStr : HttpMethod → Bytes) (exchange : Exchange) : Bytes :=
  record methodStr exchange
    (if bodyIsCollectable exchange.req then exchange.req.body.toString else [])
    (if bodyIsCollectable exchange.resp then exchange.resp.body.toString ++ ascii "\n" else [])

/-- The content type is a text type, on one line. -/
def Textual (message : MessageBase) : Prop :=
  ∃ value ∈ message.header HeaderFields.contentType,
    ascii "text/" <+: value ∧ ∀ byte ∈ value.drop 5, notLineEnd byte = true

instance : DecidablePred Textual := fun message =>
  inferInstanceAs (Decidable (∃ value ∈ message.header HeaderFields.contentType,
    ascii "text/" <+: value ∧ ∀ byte ∈ value.drop 5, notLineEnd byte = true))

/-! ## What the expressions find -/

example : ¬ Textual (MessageBase.new.setHeader (ascii "Content-Type") (ascii "application/json")) := by
  decide

end PipeCollector

/-! ## Runs of the collector -/

inductive Sink where
  | pipe
  | cout
deriving DecidableEq, Repr

/-- Whether the pipe could be opened, the closures that are to run on the strand, and
what was written where. -/
structure PipeCollector where
  pipeOpen : Bool
  spool : Spool Bool Exchange (Sink × Bytes)
deriving DecidableEq, Repr

inductive PipeEvent where
  | collect (exchange : Exchange)
  | runPosted
deriving DecidableEq, Repr

def PipeEvent.exchange? : PipeEvent → Option Exchange
  | .collect exchange => some exchange
  | .runPosted => none

namespace PipeCollector

def new (pipeOpen : Bool) : PipeCollector := ⟨pipeOpen, .new⟩

def writes (methodStr : HttpMethod → Bytes) (pipeOpen : Bool) (exchange : Exchange) :
    List (Sink × Bytes) :=
  if pipeOpen then
    [(.pipe, text methodStr exchange), (.cout, text methodStr exchange ++ ascii "\n")]
  else []

def collect (collector : PipeCollector) (exchange : Exchange) : PipeCollector :=
  { collector with spool := collector.spool.post exchange }

def postedCollect (methodStr : HttpMethod → Bytes) (collector : PipeCollector) : PipeCollector :=
  { collector with spool := collector.spool.run (writes methodStr) collector.pipeOpen }

def step (methodStr : HttpMethod → Bytes) (collector : PipeCollector) : PipeEvent → PipeCollector
  | .collect exchange => collector.collect exchange
  | .runPosted => collector.postedCollect methodStr

def after (methodStr : HttpMethod → Bytes) (pipeOpen : Bool) (events : List PipeEvent) :
    PipeCollector :=
  events.foldl (step methodStr) (new pipeOpen)

variable {methodStr : HttpMethod → Bytes} {pipeOpen : Bool} {collector : PipeCollector}
  {given : List Exchange}

/-- What holds of a collector that was given the exchanges. -/
structure Recording (methodStr : HttpMethod → Bytes) (pipeOpen : Bool) (given : List Exchange)
    (collector : PipeCollector) : Prop where
  opened : collector.pipeOpen = pipeOpen
  given : collector.spool.given = given
  inOrder : collector.spool.InOrder (writes methodStr)
  same : ∀ circumstance ∈ collector.spool.circumstances, circumstance = pipeOpen

theorem Recording.step (recording : Recording methodStr pipeOpen given collector)
    (event : PipeEvent) :
    Recording methodStr pipeOpen (given ++ event.exchange?.toList) (collector.step methodStr event) := by
  cases event with
  | collect exchange =>
      refine ⟨recording.opened, ?_, recording.inOrder.post exchange, recording.same⟩
      exact congrArg (· ++ [exchange]) recording.given
  | runPosted =>
      refine ⟨recording.opened, ?_, recording.inOrder.run collector.pipeOpen, fun other member => ?_⟩
      · exact (Spool.given_run _ _ _).trans (recording.given.trans (List.append_nil _).symm)
      · rcases Spool.mem_circumstances_run member with old | now
        · exact recording.same other old
        · exact now.trans recording.opened

theorem Recording.output (recording : Recording methodStr pipeOpen given collector) :
    collector.spool.output =
      (given.take collector.spool.printed).flatMap (writes methodStr pipeOpen) := by
  rw [← recording.given]
  exact recording.inOrder.output_eq fun circumstance member => by
    rw [recording.same circumstance member]

/-- What is written of an exchange, with the bodies that have a text type. -/
def written (methodStr : HttpMethod → Bytes) (pipeOpen : Bool) (exchange : Exchange) :
    List (Sink × Bytes) :=
  let text := record methodStr exchange
    (if Textual exchange.req then exchange.req.body.toString else [])
    (if Textual exchange.resp then exchange.resp.body.toString ++ ascii "\n" else [])
  if pipeOpen then [(.pipe, text), (.cout, text ++ ascii "\n")] else []

end PipeCollector

end Marvin.Collector
