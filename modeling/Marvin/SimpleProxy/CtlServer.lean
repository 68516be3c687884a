import Marvin.Http.HeadSize
import Marvin.Message.WriterReuse
import Marvin.Server.RequestHandler
import Marvin.SimpleProxy.FilterRequests
import Marvin.SimpleProxy.KeepAliveRules

namespace Marvin.SimpleProxy

open Marvin.Data Marvin.Buffer Marvin.Http Marvin.Message Marvin.Server

/-! # The control server

`apps/simple_proxy/ctl_thread.cpp` as a request handler of the server: each
connection to the control port has its own `CtlApp` with a reader and a writer,
and all of them edit the filters of one proxy.  Each operation that is started
completes once.
-/

/-- A request with what was written in answer to it. -/
structure Served where
  request : MessageBase
  written : Written
deriving DecidableEq, Repr

/-- What all connections share. -/
structure Control where
  proxy : Proxy
  /-- `terminate` was called for both servers. -/
  terminated : Bool
  /-- The requests that were dispatched, in this order. -/
  log : List Served
  /-- The places in the log of the answers whose write has completed without an error. -/
  delivered : List Nat
deriving DecidableEq, Repr

/-- A write has one of two completion handlers: that of `p_handle_stop` terminates
both servers. -/
inductive CtlOperation where
  | read
  | write (stops : Bool)
deriving DecidableEq, Repr

/-- What `Connection::shutdown` finds: `m_closed_already`, which the constructor of an
accepted connection does not set, and what the system answers. -/
structure Shutdown where
  closedAlready : Bool
  err : ErrorType
deriving DecidableEq, Repr

def Shutdown.outcome (shutdown : Shutdown) : Except Fault Unit :=
  if shutdown.closedAlready then .error .closedAlready
  else if shutdown.err = .ok then .ok ()
  else .error .shutdownFailed

/-- `shutdown` is for the callback of a write that shuts the connection down. -/
inductive CtlCompletion where
  | read (result : Except ErrorType MessageBase)
  | write (stops : Bool) (err : ErrorType) (shutdown : Shutdown)

def CtlCompletion.operation : CtlCompletion → CtlOperation
  | .read _ => .read
  | .write stops _ _ => .write stops

structure CtlSession where
  outstanding : List CtlOperation
  wrtr : MessageWriter
  request : Option MessageBase
  /-- Where the requests of this connection are in the log. -/
  places : List Nat
  shutDown : Bool
  doneCallbacks : Nat
deriving DecidableEq, Repr

namespace CtlSession

variable (methodStr : HttpMethod → Bytes)

def pInternalHandle (session : CtlSession) : CtlSession :=
  { session with outstanding := session.outstanding ++ [.read] }

def handle : CtlSession :=
  pInternalHandle ⟨[], .new, none, [], false, 0⟩

def doneCallback (session : CtlSession) : CtlSession :=
  { session with doneCallbacks := session.doneCallbacks + 1 }

/-- The handler that the table finds, or `p_invalid_request`. -/
def dispatch (control : Control) (session : CtlSession) (request : MessageBase) :
    Except Fault (Control × CtlSession) := do
  let (proxy, body) := respond control.proxy request
  let response ← make200Response body
  let (wrtr, written) ← session.wrtr.write methodStr (.string response body)
  return ({ control with proxy, log := control.log ++ [⟨request, written⟩] },
    { session with
      outstanding := session.outstanding ++ [.write (find request.target == some .stop)]
      wrtr
      request := some request
      places := session.places ++ [control.log.length] })

def pReqRespCycleComplete (session : CtlSession) (shutdown : Shutdown) : Except Fault CtlSession := do
  if session.request.any cycleKeepsAlive then return session.pInternalHandle
  else
    shutdown.outcome
    return { session with shutDown := true }.doneCallback

def complete (control : Control) (session : CtlSession) :
    CtlCompletion → Except Fault (Control × CtlSession)
  | .read (.error _) => return (control, session.doneCallback)
  | .read (.ok request) => session.dispatch methodStr control request
  | .write stops err shutdown =>
      if err = .ok then do
        let next ← session.pReqRespCycleComplete shutdown
        return ({ control with
          terminated := control.terminated || stops
          delivered := control.delivered ++ session.places.getLast?.toList }, next)
      else return (control, session.doneCallback)

def callback (control : Control) (session : CtlSession) (completion : CtlCompletion) :
    Except Fault (Control × CtlSession) :=
  { session with outstanding := session.outstanding.erase completion.operation }.complete methodStr
    control completion

end CtlSession

/-- Nothing else changes what the proxy filters. -/
def ctlApp (methodStr : HttpMethod → Bytes) : RequestHandler Control CtlSession CtlCompletion where
  handle := .handle
  Enabled session completion := completion.operation ∈ session.outstanding
  callback := CtlSession.callback methodStr
  done := CtlSession.doneCallbacks
  outside _ _ := False

abbrev Controlling := Serving Control CtlSession

/-! ## One connection -/

/-- The answer to the last request of a connection is written. -/
def Control.deliver (control : Control) (session : CtlSession) (request : MessageBase) : Control :=
  { control with
    terminated := control.terminated || (find request.target == some .stop)
    delivered := control.delivered ++ session.places.getLast?.toList }

namespace CtlSession

/-- A connection that reads, that writes the answer to its request, or that is done. -/
inductive Course : CtlSession → Prop where
  | reading {session : CtlSession} (only : session.outstanding = [.read])
      (pending : session.doneCallbacks = 0) (opened : session.shutDown = false) : Course session
  | writing {session : CtlSession} {stops : Bool} {request : MessageBase}
      (only : session.outstanding = [.write stops]) (pending : session.doneCallbacks = 0)
      (opened : session.shutDown = false) (asked : session.request = some request)
      (kind : stops = (find request.target == some .stop)) : Course session
  | done {session : CtlSession} (idle : session.outstanding = [])
      (posted : session.doneCallbacks = 1)
      (shut : session.shutDown = true → session.request.any cycleKeepsAlive = false) : Course session

variable {methodStr : HttpMethod → Bytes} {control next : Control} {session after : CtlSession}

theorem dispatch_ok {request : MessageBase}
    (dispatched : session.dispatch methodStr control request = .ok (next, after)) :
    ∃ response wrtr written, make200Response (respond control.proxy request).2 = .ok response ∧
      session.wrtr.write methodStr (.string response (respond control.proxy request).2) =
        .ok (wrtr, written) ∧
      next = { control with
        proxy := (respond control.proxy request).1, log := control.log ++ [⟨request, written⟩] } ∧
      after = { session with
        outstanding := session.outstanding ++ [.write (find request.target == some .stop)]
        wrtr
        request := some request
        places := session.places ++ [control.log.length] } := by
  obtain ⟨response, made, rest⟩ := exists_ok_of_bind dispatched
  obtain ⟨⟨wrtr, written⟩, sent, rest⟩ := exists_ok_of_bind rest
  cases rest
  exact ⟨response, wrtr, written, made, sent, rfl, rfl⟩

/-- What a callback does, by the operation that was in progress. -/
inductive Turn (methodStr : HttpMethod → Bytes) (control next : Control)
    (before after : CtlSession) : Prop where
  /-- The connection ends after an error. -/
  | fails (same : next = control)
      (ended : after = { before with outstanding := [], doneCallbacks := 1 })
  | dispatches (request response : MessageBase) (wrtr : MessageWriter) (written : Written)
      (reading : before.outstanding = [.read])
      (made : make200Response (respond control.proxy request).2 = .ok response)
      (sent : before.wrtr.write methodStr (.string response (respond control.proxy request).2) =
        .ok (wrtr, written))
      (logged : next = { control with
        proxy := (respond control.proxy request).1, log := control.log ++ [⟨request, written⟩] })
      (writes : after = { before with
        outstanding := [.write (find request.target == some .stop)]
        wrtr
        request := some request
        places := before.places ++ [control.log.length] })
  /-- The answer is written, and the next request is read. -/
  | continues (request : MessageBase) (asked : before.request = some request)
      (writing : before.outstanding = [.write (find request.target == some .stop)])
      (keeps : cycleKeepsAlive request = true)
      (stops : next = control.deliver before request)
      (reads : after = { before with outstanding := [.read] })
  /-- The answer is written, and the connection is shut down. -/
  | closes (request : MessageBase) (asked : before.request = some request)
      (writing : before.outstanding = [.write (find request.target == some .stop)])
      (ends : cycleKeepsAlive request = false)
      (stops : next = control.deliver before request)
      (shut : after = { before with outstanding := [], shutDown := true, doneCallbacks := 1 })

theorem callback_turn {completion : CtlCompletion} (course : session.Course)
    (enabled : completion.operation ∈ session.outstanding)
    (called : session.callback methodStr control completion = .ok (next, after)) :
    Turn methodStr control next session after := by
  cases course with
  | done idle posted shut =>
      rw [idle] at enabled
      cases enabled
  | reading only pending opened =>
      rw [only, List.mem_singleton] at enabled
      cases completion with
      | write stops err shutdown => cases enabled
      | read result =>
          simp only [callback, CtlCompletion.operation, only, List.erase_cons_head] at called
          cases result with
          | error err =>
              cases called
              exact .fails rfl (by rw [doneCallback, pending])
          | ok request =>
              obtain ⟨response, wrtr, written, made, sent, logged, writes⟩ := dispatch_ok called
              exact .dispatches request response wrtr written only made sent logged writes
  | @writing stops request only pending opened asked kind =>
      rw [only, List.mem_singleton] at enabled
      cases completion with
      | read result => cases enabled
      | write other err shutdown =>
          cases enabled
          simp only [callback, CtlCompletion.operation, only, List.erase_cons_head, complete] at called
          split at called
          · obtain ⟨following, cycled, rest⟩ := exists_ok_of_bind called
            obtain ⟨rfl, rfl⟩ := Prod.mk.inj (Except.ok.inj rest)
            simp only [pReqRespCycleComplete, asked, Option.any_some] at cycled
            cases keeps : cycleKeepsAlive request with
            | true =>
                rw [keeps, if_pos rfl] at cycled
                obtain rfl := Except.ok.inj cycled
                refine .continues request asked (kind ▸ only) keeps (by rw [kind]; rfl) ?_
                simp only [pInternalHandle, asked, List.nil_append]
            | false =>
                rw [keeps, if_neg Bool.false_ne_true] at cycled
                obtain ⟨_, _, ended⟩ := exists_ok_of_bind cycled
                obtain rfl := Except.ok.inj ended
                refine .closes request asked (kind ▸ only) keeps (by rw [kind]; rfl) ?_
                simp only [doneCallback, pending, asked]
          · cases called
            exact .fails rfl (by rw [doneCallback, pending])

theorem callback_course {completion : CtlCompletion} (course : session.Course)
    (enabled : completion.operation ∈ session.outstanding)
    (called : session.callback methodStr control completion = .ok (next, after)) : after.Course := by
  have opened : session.doneCallbacks = 0 ∧ session.shutDown = false := by
    cases course with
    | reading only pending opened => exact ⟨pending, opened⟩
    | writing only pending opened asked kind => exact ⟨pending, opened⟩
    | done idle posted shut =>
        rw [idle] at enabled
        cases enabled
  cases callback_turn course enabled called with
  | fails same ended =>
      subst ended
      exact .done rfl rfl fun shut => absurd shut (by rw [opened.2]; decide)
  | dispatches request response wrtr written reading made sent logged writes =>
      subst writes
      exact .writing rfl opened.1 opened.2 rfl rfl
  | continues request asked writing keeps stops reads =>
      subst reads
      exact .reading rfl opened.1 opened.2
  | closes request asked writing ends stops shut =>
      subst shut
      exact .done rfl rfl fun _ => by simp [asked, ends]

end CtlSession

theorem ctlApp_settles (methodStr : HttpMethod → Bytes) {guard : Control → CtlCompletion → Prop} :
    (ctlApp methodStr).Settles guard CtlSession.Course where
  begins := ⟨.reading rfl rfl rfl, rfl⟩
  keeps := by
    intro context next before after completion course enabled _ called
    exact CtlSession.callback_course course enabled called
  once := by
    intro session course
    cases course with
    | reading only pending opened => exact .inl pending
    | writing only pending opened asked kind => exact .inl pending
    | done idle posted shut =>
        refine .inr ⟨posted, fun completion enabled => ?_⟩
        have member : completion.operation ∈ session.outstanding := enabled
        rw [idle] at member
        cases member

/-! ## One answer -/

/-- The head of every answer. -/
def answerHead (body : Bytes) : Bytes :=
  ascii "HTTP/1.1 200 OK\r\nCONTENT-TYPE: plain/text\r\nCONTENT-LENGTH: " ++
    decimal body.length ++ ascii "\r\n\r\n"

/-- The largest block that the allocator gives out. -/
def largestBody : Nat := 1024 * 1024

def plainAnswer : MessageBase :=
  ((((MessageBase.new.setIsRequest false).setStatusCode (some 200)).setReason
    (ascii "OK")).setVersion 1 1).setHeader HeaderFields.contentType (ascii "plain/text")

theorem make200Response_ok {body : Bytes} {response : MessageBase}
    (made : make200Response body = .ok response) :
    ∃ chain, BufferChain.ofText body = .ok chain ∧ response = plainAnswer.setBody chain := by
  obtain ⟨chain, allocated, rest⟩ := exists_ok_of_bind made
  cases rest
  exact ⟨chain, allocated, rfl⟩

theorem make200Response_head {body : Bytes} {response : MessageBase}
    (made : make200Response body = .ok response) (methodStr : HttpMethod → Bytes) :
    (response.headPieces methodStr).flatten = answerHead body := by
  obtain ⟨chain, allocated, rfl⟩ := make200Response_ok made
  obtain ⟨tallied, text⟩ := BufferChain.ofText_tallied allocated
  have size : chain.size = body.length := tallied.size.trans (congrArg List.length text)
  have fields : (plainAnswer.setBody chain).fields =
      [⟨.ofText HeaderFields.contentType, ascii "plain/text"⟩,
        ⟨.ofText HeaderFields.contentLength, decimal body.length⟩] := by
    rw [MessageBase.fields_setBody, size]
    rfl
  have kind : (plainAnswer.setBody chain).isRequest = false := rfl
  have front : answerHead body = (ascii "HTTP/1.1 " ++ ascii "200 OK\r\n" ++ ascii "CONTENT-TYPE" ++
      ascii ": " ++ ascii "plain/text" ++ ascii "\r\n" ++ ascii "CONTENT-LENGTH" ++ ascii ": ") ++
        decimal body.length ++ (ascii "\r\n" ++ ascii "\r\n") := rfl
  have code : decimal ((plainAnswer.setBody chain).statusCode.getD 0) = ascii "200" := by
    change decimal 200 = _
    decide
  rw [MessageBase.headPieces, fields, kind, front, code]
  change ([ascii "HTTP/1.1 ", ascii "200 OK\r\n", ascii "CONTENT-TYPE", ascii ": ",
    ascii "plain/text", ascii "\r\n", ascii "CONTENT-LENGTH", ascii ": ", decimal body.length,
    ascii "\r\n", ascii "\r\n"] : List Bytes).flatten = _
  simp only [List.flatten_cons, List.flatten_nil, List.append_nil, List.append_assoc]

/-- No answer is empty, so the writer never finds the body of the one before. -/
theorem respond_body_ne_nil (proxy : Proxy) (request : MessageBase) :
    (respond proxy request).2 ≠ [] := by
  unfold respond
  split
  · exact List.cons_ne_nil _ _
  · simp [pHandleFilter, ascii]
  · simp [pHandleBodies, ascii]
  · exact List.cons_ne_nil _ _

/-- What is written in answer to a request. -/
def Answers (proxy : Proxy) (served : Served) : Prop :=
  served.written.head = answerHead (respond proxy served.request).2 ∧
    served.written.body = (respond proxy served.request).2

theorem write_answers {methodStr : HttpMethod → Bytes} {proxy : Proxy}
    {request response : MessageBase} {before after : MessageWriter} {written : Written}
    (made : make200Response (respond proxy request).2 = .ok response)
    (sent : before.write methodStr (.string response (respond proxy request).2) =
      .ok (after, written)) : Answers proxy ⟨request, written⟩ := by
  obtain ⟨stored, body, head, serialized, same⟩ := MessageWriter.write_ok sent
  have stores : (WriteCall.string response (respond proxy request).2).Stores :=
    respond_body_ne_nil proxy request
  rw [if_pos stores] at stored
  refine ⟨?_, body.trans stored⟩
  have length : (response.headPieces methodStr).flatten.length ≤ 1024 * 1024 := by
    by_contra long
    have failed := MessageBase.serializeHeaders_error (Nat.lt_of_not_le long)
    cases failed.symm.trans serialized
  obtain ⟨other, written, text⟩ := MessageBase.serializeHeaders_ok length
  obtain rfl := Except.ok.inj (written.symm.trans serialized)
  rw [← make200Response_head made methodStr, ← text]
  exact same

theorem ofText_exists {text : Bytes} (short : text.length ≤ largestBody) :
    ∃ chain, BufferChain.ofText text = .ok chain := by
  have room : max text.length BufferMallocator.standard.minSize ≤
      BufferMallocator.standard.maxSize := by
    simp only [largestBody, BufferMallocator.standard] at short ⊢
    omega
  simp only [BufferChain.ofText, ContigBuffer.ofCapacity_ok _ _ room, bind, Except.bind]
  rw [ContigBuffer.append_exists]
  · exact ⟨_, rfl⟩
  · exact (Nat.zero_add _).trans_le ((Nat.le_max_left _ _).trans room)

theorem ofText_error {text : Bytes} (long : largestBody < text.length) :
    BufferChain.ofText text = .error .requestedAllocationTooBig := by
  have big : BufferMallocator.standard.maxSize <
      max text.length BufferMallocator.standard.minSize := by
    simp only [largestBody, BufferMallocator.standard] at long ⊢
    omega
  simp only [BufferChain.ofText, ContigBuffer.ofCapacity_error _ _ big]
  rfl

theorem make200Response_short {body : Bytes} {response : MessageBase}
    (made : make200Response body = .ok response) : body.length ≤ largestBody := by
  obtain ⟨chain, allocated, _⟩ := make200Response_ok made
  by_contra long
  rw [ofText_error (Nat.lt_of_not_le long)] at allocated
  cases allocated

theorem answerHead_length {body : Bytes} (short : body.length ≤ largestBody) :
    (answerHead body).length ≤ 1024 * 1024 := by
  have digits : (decimal body.length).length ≤ 7 :=
    decimal_length (by decide) (by simp only [largestBody] at short; omega)
  have fixed :
      (ascii "HTTP/1.1 200 OK\r\nCONTENT-TYPE: plain/text\r\nCONTENT-LENGTH: ").length = 59 := by
    decide
  have last : (ascii "\r\n\r\n").length = 4 := by decide
  rw [answerHead, List.length_append, List.length_append, fixed, last]
  omega

/-- A request is answered exactly when the answer fits in a block. -/
theorem dispatch_ok_iff (methodStr : HttpMethod → Bytes) (control : Control) (session : CtlSession)
    (request : MessageBase) :
    (∃ result, session.dispatch methodStr control request = .ok result) ↔
      (respond control.proxy request).2.length ≤ largestBody := by
  constructor
  · intro answered
    obtain ⟨⟨next, after⟩, dispatched⟩ := answered
    obtain ⟨response, _, _, made, _⟩ := CtlSession.dispatch_ok dispatched
    exact make200Response_short made
  · intro short
    obtain ⟨chain, allocated⟩ := ofText_exists short
    have made : make200Response (respond control.proxy request).2 =
        .ok (plainAnswer.setBody chain) := by
      simp only [make200Response, MessageBase.setBodyText, allocated, bind, Except.bind]
      rfl
    have stored : session.wrtr.store (.string (plainAnswer.setBody chain)
        (respond control.proxy request).2) = .ok ⟨some chain⟩ := by
      have some : (respond control.proxy request).2.length ≠ 0 := fun none =>
        respond_body_ne_nil control.proxy request (List.eq_nil_of_length_eq_zero none)
      simp only [MessageWriter.store, if_neg some, allocated, bind, Except.bind]
      rfl
    have small : ((plainAnswer.setBody chain).headPieces methodStr).flatten.length ≤ 1024 * 1024 := by
      rw [make200Response_head made]
      exact answerHead_length short
    obtain ⟨written, sent⟩ := MessageWriter.write_exists stored small
    simp only [CtlSession.dispatch, made, sent, bind, Except.bind]
    exact ⟨_, rfl⟩

/-! ## All connections -/

/-- The proxy after requests that are served one after another. -/
def afterRequests (proxy : Proxy) (requests : List MessageBase) : Proxy :=
  requests.foldl (fun proxy request => (respond proxy request).1) proxy

def Control.requests (control : Control) : List MessageBase :=
  control.log.map Served.request

/-- The requests are served one after another, and each is answered from the
state that the ones before it leave.  An answer is written once, and the servers are
terminated when that to a `/stop` has been. -/
structure Serial (initial : Proxy) (control : Control) : Prop where
  proxy : control.proxy = afterRequests initial control.requests
  answered : ∀ place served, control.log[place]? = some served →
    Answers (afterRequests initial (control.requests.take place)) served
  once : control.delivered.Nodup
  known : ∀ place ∈ control.delivered, place < control.log.length
  stopped : control.terminated = true ↔ ∃ place ∈ control.delivered,
    ∃ request ∈ control.requests[place]?, find request.target = some .stop

/-- The requests of a connection are in the log in the order in which they came.  All
but the last of them ask for the connection to be kept and have had their answers, and
so has the last one when another is waited for. -/
structure Placed (control : Control) (session : CtlSession) : Prop where
  increasing : session.places.Pairwise (· < ·)
  within : ∀ place ∈ session.places, place < control.log.length
  last : session.request = session.places.getLast?.bind (control.requests[·]?)
  kept : ∀ place ∈ session.places.dropLast, place ∈ control.delivered ∧
    ∀ request ∈ control.requests[place]?, cycleKeepsAlive request = true
  reading : session.outstanding = [.read] → session.request.all cycleKeepsAlive = true ∧
    ∀ place ∈ session.places, place ∈ control.delivered
  writing : ∀ stops, session.outstanding = [.write stops] → ∀ place ∈ session.places.getLast?,
    place ∉ control.delivered

def Apart (left right : CtlSession) : Prop :=
  List.Disjoint left.places right.places

theorem Serial.listen (proxy : Proxy) : Serial proxy ⟨proxy, false, [], []⟩ where
  proxy := rfl
  answered place served found := by cases found
  once := List.nodup_nil
  known place member := by cases member
  stopped := by simp

theorem Serial.dispatch {initial : Proxy} {control : Control} (serial : Serial initial control)
    {request : MessageBase} {written : Written}
    (answers : Answers control.proxy ⟨request, written⟩) :
    Serial initial { control with
      proxy := (respond control.proxy request).1, log := control.log ++ [⟨request, written⟩] } := by
  have requests : control.requests.length = control.log.length := List.length_map _
  refine ⟨?_, ?_, serial.once, ?_, ?_⟩
  · simp only [Control.requests, List.map_append, List.map_cons, List.map_nil]
    rw [afterRequests, List.foldl_append, List.foldl_cons, List.foldl_nil, serial.proxy]
    rfl
  · intro place served found
    simp only [Control.requests, List.map_append, List.map_cons, List.map_nil]
    rw [List.getElem?_append] at found
    split at found
    · next inside =>
        rw [List.take_append_of_le_length (by rw [List.length_map]; exact Nat.le_of_lt inside)]
        exact serial.answered place served found
    · next outside =>
        have beyond : place - control.log.length = 0 := by
          by_contra more
          rw [List.getElem?_eq_none (by simp; omega)] at found
          cases found
        have here : place = control.log.length := by omega
        rw [beyond] at found
        obtain rfl := Option.some.inj found
        rw [here, List.take_left' (List.length_map _)]
        have proxy := serial.proxy
        rw [Control.requests] at proxy
        rw [← proxy]
        exact answers
  · intro place member
    rw [List.length_append]
    exact Nat.lt_add_right _ (serial.known place member)
  · rw [serial.stopped]
    refine exists_congr fun place => and_congr_right fun member => ?_
    have inside : place < (control.log.map Served.request).length := by
      rw [List.length_map]
      exact serial.known place member
    simp only [Control.requests, List.map_append, List.getElem?_append_left inside]

theorem Placed.grow {control next : Control} {session : CtlSession} (placed : Placed control session)
    (longer : control.log <+: next.log) (more : control.delivered ⊆ next.delivered)
    (own : ∀ place ∈ session.places, place ∈ next.delivered → place ∈ control.delivered) :
    Placed next session := by
  have same : ∀ place ∈ session.places, next.requests[place]? = control.requests[place]? := by
    intro place member
    obtain ⟨added, grown⟩ := longer
    rw [Control.requests, Control.requests, ← grown, List.map_append,
      List.getElem?_append_left (by rw [List.length_map]; exact placed.within place member)]
  refine ⟨placed.increasing, ?_, ?_, ?_, ?_, ?_⟩
  · intro place member
    exact (placed.within place member).trans_le longer.length_le
  · rw [placed.last]
    cases found : session.places.getLast? with
    | none => rfl
    | some place => exact (same place (List.mem_of_getLast? found)).symm
  · intro place member
    obtain ⟨written, kept⟩ := placed.kept place member
    refine ⟨more written, fun request found => ?_⟩
    rw [same place (List.mem_of_mem_dropLast member)] at found
    exact kept request found
  · intro reads
    obtain ⟨kept, written⟩ := placed.reading reads
    exact ⟨kept, fun place member => more (written place member)⟩
  · intro stops writes place last written
    exact placed.writing stops writes place last (own place (List.mem_of_getLast? last) written)

/-- The request that a connection answers is its last one. -/
theorem Placed.place {control : Control} {session : CtlSession} (placed : Placed control session)
    {request : MessageBase} (asked : session.request = some request) :
    ∃ place, session.places.getLast? = some place ∧ control.requests[place]? = some request := by
  rw [placed.last, Option.bind_eq_some_iff] at asked
  obtain ⟨place, last, found⟩ := asked
  exact ⟨place, last, found⟩

theorem Placed.dispatch {control : Control} {session : CtlSession} (placed : Placed control session)
    (known : ∀ place ∈ control.delivered, place < control.log.length)
    (reading : session.outstanding = [.read]) {request : MessageBase} {written : Written}
    {proxy : Proxy} {wrtr : MessageWriter} {stops : Bool} :
    Placed { control with proxy, log := control.log ++ [⟨request, written⟩] }
      { session with
        outstanding := [.write stops]
        wrtr
        request := some request
        places := session.places ++ [control.log.length] } := by
  have grown : Placed { control with proxy, log := control.log ++ [⟨request, written⟩] } session :=
    placed.grow (List.prefix_append _ _) (List.Subset.refl _) fun _ _ => id
  obtain ⟨keeps, settled⟩ := placed.reading reading
  refine ⟨?_, ?_, ?_, ?_, fun waits => ?_, ?_⟩
  · refine List.pairwise_append.mpr ⟨placed.increasing, List.pairwise_singleton _ _, ?_⟩
    intro place member other last
    rw [List.mem_singleton.mp last]
    exact placed.within place member
  · intro place member
    rcases List.mem_append.mp member with old | new
    · exact grown.within place old
    · rw [List.mem_singleton.mp new]
      simp
  · simp [Control.requests]
  · intro place member
    rw [List.dropLast_concat] at member
    refine ⟨settled place member, fun other found => ?_⟩
    by_cases earlier : place ∈ session.places.dropLast
    · exact (grown.kept place earlier).2 other found
    · have last : session.places.getLast? = some place := by
        have nonempty : session.places ≠ [] := List.ne_nil_of_mem member
        have split := List.dropLast_append_getLast nonempty
        rw [← split, List.mem_append, List.mem_singleton] at member
        rcases member with front | back
        · exact absurd front earlier
        · rw [back]
          exact List.getLast?_eq_some_getLast nonempty
      have asked : session.request = some other := by
        rw [grown.last, last]
        exact found
      rw [asked] at keeps
      exact keeps
  · cases waits
  · intro _ _ place last written
    have here : control.log.length = place := by simpa using last
    exact Nat.lt_irrefl _ (here ▸ known place written)

theorem Placed.turn {control next : Control} {session after : CtlSession}
    (placed : Placed control session) (log : next.log = control.log)
    (more : control.delivered ⊆ next.delivered)
    (places : after.places = session.places) (request : after.request = session.request)
    (reading : after.outstanding = [.read] → session.request.all cycleKeepsAlive = true ∧
      ∀ place ∈ session.places, place ∈ next.delivered)
    (writes : ∀ stops, after.outstanding ≠ [.write stops]) : Placed next after := by
  have requests : next.requests = control.requests := congrArg (List.map Served.request) log
  refine ⟨?_, ?_, ?_, ?_, ?_, fun stops write => absurd write (writes stops)⟩
  · rw [places]
    exact placed.increasing
  · rw [places, log]
    exact placed.within
  · rw [places, request, requests]
    exact placed.last
  · rw [places, requests]
    intro place member
    exact ⟨more (placed.kept place member).1, (placed.kept place member).2⟩
  · rw [places, request]
    exact reading

/-- The last answer of a connection is written once. -/
theorem Serial.deliver {initial : Proxy} {control : Control} (serial : Serial initial control)
    {session : CtlSession} (placed : Placed control session) {request : MessageBase}
    (asked : session.request = some request) {stops : Bool}
    (writing : session.outstanding = [.write stops]) :
    Serial initial (control.deliver session request) := by
  obtain ⟨place, last, found⟩ := placed.place asked
  have delivered : (control.deliver session request).delivered = control.delivered ++ [place] := by
    rw [Control.deliver, last]
    rfl
  have fresh := placed.writing stops writing place last
  refine ⟨serial.proxy, serial.answered, ?_, ?_, ?_⟩
  · rw [delivered]
    refine List.nodup_append.mpr ⟨serial.once, List.nodup_singleton _, ?_⟩
    intro other old added new same
    rw [List.mem_singleton.mp new] at same
    exact fresh (same ▸ old)
  · rw [delivered]
    intro other member
    rcases List.mem_append.mp member with old | new
    · exact serial.known other old
    · rw [List.mem_singleton.mp new]
      exact placed.within place (List.mem_of_getLast? last)
  · rw [delivered]
    change (control.terminated || (find request.target == some .stop)) = true ↔
      ∃ other ∈ control.delivered ++ [place], ∃ asking ∈ control.requests[other]?,
        find asking.target = some .stop
    rw [Bool.or_eq_true, serial.stopped, beq_iff_eq]
    constructor
    · intro stopped
      rcases stopped with ⟨other, member, before⟩ | now
      · exact ⟨other, List.mem_append_left _ member, before⟩
      · exact ⟨place, List.mem_append_right _ (List.mem_singleton_self _), request, found, now⟩
    · intro stopped
      obtain ⟨other, member, asking, listed, stop⟩ := stopped
      rcases List.mem_append.mp member with old | new
      · exact .inl ⟨other, old, asking, listed, stop⟩
      · rw [List.mem_singleton.mp new] at listed
        obtain rfl := Option.some.inj (found.symm.trans listed)
        exact .inr stop

/-- A connection whose answer is written has had all of its answers. -/
theorem Placed.settled {control : Control} {session : CtlSession} (placed : Placed control session)
    (request : MessageBase) :
    ∀ place ∈ session.places, place ∈ (control.deliver session request).delivered := by
  intro place member
  have nonempty : session.places ≠ [] := List.ne_nil_of_mem member
  have split := List.dropLast_append_getLast nonempty
  rw [← split, List.mem_append, List.mem_singleton] at member
  rw [Control.deliver, List.getLast?_eq_some_getLast nonempty]
  rcases member with front | back
  · exact List.mem_append_left _ (placed.kept place front).1
  · exact List.mem_append_right _ (List.mem_singleton.mpr back)

/-- What one connection delivers is nothing to another. -/
theorem Placed.beside {control : Control} {session other : CtlSession}
    (placed : Placed control other) (apart : Apart session other) (request : MessageBase) :
    Placed (control.deliver session request) other := by
  refine placed.grow (List.prefix_refl _) (List.subset_append_left _ _) fun place member written => ?_
  rcases List.mem_append.mp written with old | new
  · exact old
  · have own : place ∈ session.places := List.mem_of_getLast? (Option.mem_toList.mp new)
    exact absurd member (apart own)

theorem ctlApp_shares (methodStr : HttpMethod → Bytes) (initial : Proxy)
    {guard : Control → CtlCompletion → Prop} :
    (ctlApp methodStr).Shares guard CtlSession.Course (Serial initial) Placed Apart where
  begins _ := by
    refine ⟨List.Pairwise.nil, fun place member => ?_, rfl, fun place member => ?_,
      fun _ => ⟨rfl, fun place member => ?_⟩, fun stops writes => ?_⟩
    · cases member
    · cases member
    · cases member
    · cases writes
  alone := by
    intro state place member
    cases member
  symm := List.Disjoint.symm
  own := by
    intro control next before after completion course serial placed enabled _ called
    cases CtlSession.callback_turn course enabled called with
    | fails same ended =>
        subst same ended
        refine ⟨serial, placed.turn rfl (List.Subset.refl _) rfl rfl (fun waits => ?_)
          fun stops writes => ?_⟩
        · cases waits
        · cases writes
    | dispatches request response wrtr written reading made sent logged writes =>
        subst logged writes
        exact ⟨serial.dispatch (write_answers made sent), placed.dispatch serial.known reading⟩
    | continues request asked writing keeps stops reads =>
        subst stops reads
        refine ⟨serial.deliver placed asked writing, placed.turn rfl
          (List.subset_append_left _ _) rfl rfl (fun _ => ⟨?_, placed.settled request⟩)
            fun stops writes => ?_⟩
        · rw [asked]
          exact keeps
        · cases writes
    | closes request asked writing ends stops shut =>
        subst stops shut
        refine ⟨serial.deliver placed asked writing, placed.turn rfl
          (List.subset_append_left _ _) rfl rfl (fun waits => ?_) fun stops writes => ?_⟩
        · cases waits
        · cases writes
  others := by
    intro control next before after other completion course serial placed placedOther apart enabled _
      called
    cases CtlSession.callback_turn course enabled called with
    | fails same ended =>
        subst same ended
        exact ⟨placedOther, apart⟩
    | dispatches request response wrtr written reading made sent logged writes =>
        subst logged writes
        refine ⟨placedOther.grow (List.prefix_append _ _) (List.Subset.refl _) fun _ _ => id, ?_⟩
        refine List.disjoint_append_left.mpr ⟨apart, List.singleton_disjoint.mpr fun member => ?_⟩
        exact Nat.lt_irrefl _ (placedOther.within _ member)
    | continues request asked writing keeps stops reads =>
        subst stops reads
        exact ⟨placedOther.beside apart request, apart⟩
    | closes request asked writing ends stops shut =>
        subst stops shut
        exact ⟨placedOther.beside apart request, apart⟩
  outside _ other := other.elim

/-- In every interleaving of the connections to the control port, the requests
take effect one after another and each is answered, with one message of its own,
from the state that the ones before it leave.  A connection gets its answers in
the order of its requests, no two connections share one, and the servers are
terminated only by a `/stop` whose answer was written. -/
theorem control_requests_serial (methodStr : HttpMethod → Bytes) (initial : Proxy)
    {maxConnections : Nat} {serving : Controlling}
    (reached : (Serving.runs (ctlApp methodStr) maxConnections ⟨initial, false, [], []⟩).Reaches
      Transition.unguarded serving) :
    Serial initial serving.context ∧
      (∀ handler, ∀ session ∈ KeyedList.lookup handler serving.handlers,
        Placed serving.context session) ∧
      ∀ left, ∀ first ∈ KeyedList.lookup left serving.handlers,
        ∀ right, ∀ second ∈ KeyedList.lookup right serving.handlers, left ≠ right →
          List.Disjoint first.places second.places := by
  have settles : (ctlApp methodStr).Settles (fun _ _ => True) CtlSession.Course :=
    ctlApp_settles methodStr
  have shared := Serving.reaches_shared settles (ctlApp_shares methodStr initial)
    (Serial.listen initial) (Serving.reaches_guarded reached)
  refine ⟨shared.fits, fun handler session found => ?_, ?_⟩
  · exact shared.holds _ (KeyedList.mem_of_lookup found)
  · intro left first leftFound right second rightFound different
    exact shared.apart _ (KeyedList.mem_of_lookup leftFound) _ (KeyedList.mem_of_lookup rightFound)
      different

/-- Two connections, the first of which is kept: a filter is added and read, and the
proxy is stopped. -/
def stopping : List (Serving.Input Control CtlCompletion) :=
  [.server (.run .startAccept 0), .server (.connects 0 7),
    .server (.run (.accepted 0 (.connected 7)) 1),
    .server (.run (.handleAccept 0 (.connected 7)) 1), .server (.connects 1 8),
    .server (.run (.accepted 1 (.connected 8)) 2),
    .server (.run (.handleAccept 1 (.connected 8)) 2),
    .callback ⟨0, 7⟩ (.read (.ok ((MessageBase.new.setTarget (ascii "/filter_add/a")).setHeader
      HeaderFields.connection (ascii "Keep-Alive")))),
    .callback ⟨1, 8⟩ (.read (.ok (MessageBase.new.setTarget (ascii "/filter_list")))),
    .callback ⟨0, 7⟩ (.write false .ok ⟨false, .ok⟩),
    .callback ⟨0, 7⟩ (.read (.ok (MessageBase.new.setTarget (ascii "/stop")))),
    .callback ⟨0, 7⟩ (.write true .ok ⟨false, .ok⟩)]

instance (methodStr : HttpMethod → Bytes) (session : CtlSession) :
    DecidablePred ((ctlApp methodStr).Enabled session) :=
  fun completion => inferInstanceAs (Decidable (completion.operation ∈ session.outstanding))

instance (methodStr : HttpMethod → Bytes) (control : Control) :
    DecidablePred ((ctlApp methodStr).outside control) :=
  fun _ => .isFalse id

theorem stopping_reached :
    ∃ serving : Controlling, (Serving.runs (ctlApp (fun _ => [])) 2 ⟨⟨[], false⟩, false, [], []⟩).Reaches
        Transition.unguarded serving ∧
      serving.context.terminated = true ∧ serving.context.proxy.filters = [ascii "a"] ∧
      (KeyedList.lookup ⟨0, 7⟩ serving.handlers).map CtlSession.places = some [0, 2] ∧
      (KeyedList.lookup ⟨1, 8⟩ serving.handlers).map CtlSession.places = some [1] ∧
      serving.done = [⟨0, 7⟩] := by
  obtain ⟨serving, followed, terminated, filters, first, second, done⟩ :
      ∃ serving : Controlling, stopping.foldlM (Transition.attempt Transition.unguarded
          (Serving.Enabled (ctlApp (fun _ => []))) (Serving.step (ctlApp (fun _ => []))))
            (Serving.listen 2 ⟨⟨[], false⟩, false, [], []⟩) = some serving ∧
        serving.context.terminated = true ∧ serving.context.proxy.filters = [ascii "a"] ∧
        (KeyedList.lookup ⟨0, 7⟩ serving.handlers).map CtlSession.places = some [0, 2] ∧
        (KeyedList.lookup ⟨1, 8⟩ serving.handlers).map CtlSession.places = some [1] ∧
        serving.done = [⟨0, 7⟩] := ⟨_, rfl, rfl, rfl, rfl, rfl, rfl⟩
  exact ⟨serving, Transition.ofStep_follow (.initial rfl) followed, terminated, filters, first,
    second, done⟩

theorem stopping_requests_serial :
    ∃ serving : Controlling, serving.context.terminated = true ∧
      serving.context.proxy.filters = [ascii "a"] ∧ Serial ⟨[], false⟩ serving.context ∧
      (∀ handler, ∀ session ∈ KeyedList.lookup handler serving.handlers,
        Placed serving.context session) := by
  obtain ⟨serving, reached, terminated, filters, _⟩ := stopping_reached
  obtain ⟨serial, placed, _⟩ := control_requests_serial _ _ reached
  exact ⟨serving, terminated, filters, serial, placed⟩

/-- A callback finds nothing that makes it throw: the answer to the request that was
read fits in a block, and the connection of an answer that was written is kept or can
be shut down. -/
def CtlSession.Returns (control : Control) (session : CtlSession) : CtlCompletion → Prop
  | .read (.ok request) => (respond control.proxy request).2.length ≤ largestBody
  | .write _ .ok shutdown => session.request.any cycleKeepsAlive = true ∨
      shutdown.closedAlready = false ∧ shutdown.err = .ok
  | _ => True

theorem Shutdown.outcome_ok_iff (shutdown : Shutdown) :
    shutdown.outcome = .ok () ↔ shutdown.closedAlready = false ∧ shutdown.err = .ok := by
  rw [outcome]
  split
  · next closed => simp [closed]
  · next opened =>
      split
      · next fine => simp [opened, fine]
      · next failed => simp [failed]

theorem cycleComplete_ok_iff (session : CtlSession) (shutdown : Shutdown) :
    (∃ next, session.pReqRespCycleComplete shutdown = .ok next) ↔
      session.request.any cycleKeepsAlive = true ∨
        shutdown.closedAlready = false ∧ shutdown.err = .ok := by
  rw [CtlSession.pReqRespCycleComplete]
  split
  · next keeps => exact iff_of_true ⟨_, rfl⟩ (.inl keeps)
  · next ends =>
      rw [or_iff_right ends, ← Shutdown.outcome_ok_iff]
      constructor
      · intro completed
        obtain ⟨next, completed⟩ := completed
        obtain ⟨_, fine, _⟩ := exists_ok_of_bind completed
        exact fine
      · intro fine
        rw [fine]
        exact ⟨_, rfl⟩

theorem callback_ok_iff (methodStr : HttpMethod → Bytes) (control : Control) (session : CtlSession)
    (completion : CtlCompletion) :
    (∃ result, session.callback methodStr control completion = .ok result) ↔
      session.Returns control completion := by
  cases completion with
  | write stops err shutdown =>
      by_cases fine : err = .ok
      · subst fine
        refine Iff.trans ?_ (cycleComplete_ok_iff
          { session with outstanding := session.outstanding.erase (.write stops) } shutdown)
        simp only [CtlSession.callback, CtlSession.complete, CtlCompletion.operation, if_true]
        constructor
        · intro called
          obtain ⟨result, called⟩ := called
          obtain ⟨next, completed, _⟩ := exists_ok_of_bind called
          exact ⟨next, completed⟩
        · intro completed
          obtain ⟨next, completed⟩ := completed
          simp only [completed, bind, Except.bind]
          exact ⟨_, rfl⟩
      · have returns : session.Returns control (.write stops err shutdown) := by
          cases err <;> first | exact absurd rfl fine | trivial
        refine iff_of_true ?_ returns
        simp only [CtlSession.callback, CtlSession.complete, if_neg fine]
        exact ⟨_, rfl⟩
  | read result =>
      cases result with
      | error err => exact iff_of_true ⟨_, rfl⟩ trivial
      | ok request =>
          rw [CtlSession.callback, CtlSession.complete, dispatch_ok_iff]
          rfl

end Marvin.SimpleProxy
