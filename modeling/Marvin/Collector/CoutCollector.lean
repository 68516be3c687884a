import Marvin.Data.Spool
import Marvin.Http.MessageBase

namespace Marvin.Collector

open Marvin.Data Marvin.Http

/-! # Collectors that write text

`marvin/collector/cout_collector.cpp` and the text of `pipe_collector.cpp`.
`collect` posts a closure that holds the two messages; when it runs, it puts a text
together and writes it out.  The two texts differ in what they have of the bodies.
-/

structure Exchange where
  scheme : Bytes
  host : Bytes
  req : MessageBase
  resp : MessageBase
deriving DecidableEq, Repr

def dumpHeaders (message : MessageBase) : Bytes :=
  (message.fields.map fun field =>
    field.key.val ++ ascii " : " ++ field.value ++ ascii "\n").flatten

def version (message : MessageBase) : Bytes :=
  ascii "HTTP/" ++ decimal message.httpMajor ++ ascii "." ++ decimal message.httpMinor

def rule : Bytes := ascii "------------------------------------------------\n"

/-- What `posted_collect` writes, with what it has of the two bodies. -/
def record (methodStr : HttpMethod → Bytes) (exchange : Exchange) (reqBody respBody : Bytes) :
    Bytes :=
  rule ++ ascii "HOST: " ++ exchange.scheme ++ ascii "://" ++ exchange.host ++ ascii "\n" ++
    ascii "REQUEST : =========\n" ++ (exchange.req.method.map methodStr).getD [] ++ ascii " " ++
    exchange.req.target ++ ascii " " ++ version exchange.req ++ ascii "\n" ++
    dumpHeaders exchange.req ++ reqBody ++ ascii "\n" ++
    ascii "RESPONSE : ========\n" ++ version exchange.resp ++ ascii " " ++
    decimal (exchange.resp.statusCode.getD 0) ++ ascii " " ++ exchange.resp.reason ++ ascii "\n" ++
    dumpHeaders exchange.resp ++ respBody ++ rule

/-- `get_show_message_bodies` is asked when the closure runs. -/
def CoutCollector.text (methodStr : HttpMethod → Bytes) (showMessageBodies : Bool)
    (exchange : Exchange) : Bytes :=
  record methodStr exchange (ascii "Body: \n" ++ exchange.req.body.toString)
    (if showMessageBodies then exchange.resp.body.toString ++ ascii "\n" else [])

/-- The closures that `collect` has posted, and what was written to `std::cout`. -/
abbrev CoutCollector := Spool Bool Exchange UInt8

def CoutCollector.collect (collector : CoutCollector) (exchange : Exchange) : CoutCollector :=
  collector.post exchange

def CoutCollector.postedCollect (methodStr : HttpMethod → Bytes) (showMessageBodies : Bool)
    (collector : CoutCollector) : CoutCollector :=
  collector.run (CoutCollector.text methodStr) showMessageBodies

end Marvin.Collector
