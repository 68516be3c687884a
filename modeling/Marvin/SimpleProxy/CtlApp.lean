import Marvin.Data.Heap
import Marvin.Data.Regex
import Marvin.Http.HeaderRemoval

namespace Marvin.SimpleProxy

open Marvin.Data Marvin.Http

/-! # The control application

`apps/simple_proxy/ctl_thread.cpp`: requests to the control port of the proxy.
A dispatch table of regular expressions chooses the handler; the filter handler
edits the list of host patterns that the proxy captures.
-/

/-- What a request to the control port can change. -/
structure Proxy where
  filters : List Bytes
  showMessageBodies : Bool
deriving DecidableEq, Repr

def make200Response (body : Bytes) : Except Fault MessageBase :=
  let message := MessageBase.new.setIsRequest false
  let message := message.setStatusCode (some 200)
  let message := message.setReason (ascii "OK")
  let message := message.setVersion 1 1
  let message := message.setHeader HeaderFields.contentType (ascii "plain/text")
  message.setBodyText body

def slash : UInt8 := 47

/-- The path without its first slash, split at every other one. -/
def splitPath (path : Bytes) : List Bytes :=
  (if path.head? = some slash then path.tail else path).splitOnP (· == slash)

def isNumber (text : Bytes) : Bool :=
  !text.isEmpty && text.all isDigit

/-- The `int` that `atoi` makes of the text, as it is compared with a `size_t`. -/
def filterIndex (text : Bytes) : Nat :=
  (atoi text % 2 ^ 64).toNat

/-- The new filters, and what is said about a request that cannot be carried out. -/
def editFilters (filters : List Bytes) : List Bytes → List Bytes × Bytes
  | [] => (filters, [])
  | command :: parameters =>
      if command = ascii "filter_list" then (filters, [])
      else if command = ascii "filter_remove" then
        match parameters with
        | [] => (filters, ascii "list_remove requires a regex string as a parameter \n")
        | parameter :: _ =>
            if isNumber parameter then
              if filterIndex parameter < filters.length then
                (filters.eraseIdx (filterIndex parameter), [])
              else
                (filters,
                  ascii "Index : " ++ signedDecimal (atoi parameter) ++ ascii " is too big.\n")
            else (filters, ascii "bad request " ++ parameter ++ ascii " is not an index \n")
      else if command = ascii "filter_add" then
        match parameters with
        | [] => (filters, ascii "list_add requires an index  parameter \n")
        | parameter :: _ => (filters ++ [parameter], [])
      else (filters, command ++ ascii " is an invalid request\n")

/-- The proxy and the body of the response. -/
def pHandleFilter (proxy : Proxy) (bits : List Bytes) : Proxy × Bytes :=
  let (filters, note) := editFilters proxy.filters bits
  ({ proxy with filters }, note ++ ascii "\nHost regexes: \n" ++
    (filters.map fun filter => ascii "host regex: " ++ filter ++ ascii "\n").flatten ++
    ascii "complete ------\n")

def pHandleBodies (proxy : Proxy) (bits : List Bytes) : Proxy × Bytes :=
  let proxy :=
    if bits.head? = some (ascii "bodies_on") then { proxy with showMessageBodies := true }
    else if bits.head? = some (ascii "bodies_off") then { proxy with showMessageBodies := false }
    else proxy
  (proxy, ascii "Show message bodies: " ++ decimal proxy.showMessageBodies.toNat ++
    ascii "\ncomplete ------\n")

inductive Route where
  | stop
  | filter
  | bodies
deriving DecidableEq, Repr

def dispatchTable : List (Regex UInt8 × Route) :=
  [(.word (· == ·) (ascii "/stop") .empty, .stop),
    (.word (· == ·) (ascii "/filter") (.star (.one notLineEnd)), .filter),
    (.word (· == ·) (ascii "/bodies_") (.star (.one notLineEnd)), .bodies)]

def find (path : Bytes) : Option Route :=
  (dispatchTable.find? fun (pattern, _) => pattern.matchWhole path).map Prod.snd

/-- What is answered to a request.  After the answer to `/stop` is written, both
servers are terminated. -/
def respond (proxy : Proxy) (request : MessageBase) : Proxy × Bytes :=
  match find request.target with
  | some .stop => (proxy, ascii "stop not yet implemented")
  | some .filter => pHandleFilter proxy (splitPath request.target)
  | some .bodies => pHandleBodies proxy (splitPath request.target)
  | none => (proxy, ascii "INVALID REQUEST")

/-- The decision of `p_req_resp_cycle_complete`: to read another request, or to
shut the connection down. -/
def cycleKeepsAlive (request : MessageBase) : Bool :=
  match request.header HeaderFields.connection with
  | some conhdr => conhdr == ascii "Keep-Alive"
  | none => false

end Marvin.SimpleProxy
