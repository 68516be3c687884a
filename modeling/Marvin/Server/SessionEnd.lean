import Marvin.Http.Segments
import Marvin.Server.SessionInvariant

namespace Marvin.Server

open Marvin.Data Marvin.Buffer Marvin.Http Marvin.Message Marvin.Helpers Marvin.Collector

/-! # How a session ends

The callbacks that can fail are those that take a client's request apart.  As
long as the requests pass their checks, every operation is followed by the next
one or by the completion, and the ranks bound their number.
-/

/-- What the `Client` can pass on as a response: the parser's callbacks made it,
its status has three digits at most, and its head and trailers are within
http_parser's limit. -/
structure Answered (response : MessageBase) : Prop where
  parsed : Parsed response
  coded : ∀ code ∈ response.statusCode, code < 1000
  limited : response.reason.length + (response.fields.map lineBytes).sum ≤ 2 * httpMaxHeaderSize
  counted : response.body.size < 2 ^ 64

variable {urls : UrlParser} {regex : Bytes → Option (Bytes → Bool)}
  {filters : List Bytes} {methodStr : HttpMethod → Bytes}
  {request response : MessageBase}

/-- The header lines of a downstream response are the server's, but for what the
proxy adds. -/
theorem downstream_linesSize (answered : Answered response) :
    linesSize (makeDownstreamGoodResponse .new response).fields ≤
      linesSize response.fields + 64 := by
  have length : (decimal response.body.size).length ≤ 20 :=
    decimal_length (by decide) (Nat.lt_trans answered.counted (by decide))
  have first := linesSize_putAll [] (copied responseDontCopyList response)
  have copy : linesSize (copied responseDontCopyList response) ≤ linesSize response.fields :=
    linesSize_sublist List.filter_sublist
  have closing := linesSize_put (key HeaderFields.connection) HeaderFields.connectionClose
    (KeyedList.putAll [] (copied responseDontCopyList response))
  have removal : linesSize (KeyedList.remove (key HeaderFields.transferEncoding)
      (headedFields response)) ≤ linesSize (headedFields response) :=
    linesSize_sublist List.eraseP_sublist
  have sized := linesSize_put (key HeaderFields.contentLength) (decimal response.body.size)
    (KeyedList.remove (key HeaderFields.transferEncoding) (headedFields response))
  have names : (key HeaderFields.connection).val.length = 10 ∧
      HeaderFields.connectionClose.length = 5 ∧
      (key HeaderFields.contentLength).val.length = 14 := by decide
  have none : linesSize [] = 0 := rfl
  have headed : linesSize (headedFields response) ≤ linesSize response.fields + 19 := by
    rw [headedFields]
    omega
  rw [fields_makeDownstreamGoodResponse]
  dsimp only
  split
  · change linesSize (KeyedList.put _ _ (KeyedList.remove _ (headedFields response))) ≤ _
    omega
  · change linesSize (headedFields response) ≤ _
    omega

theorem makeDownstreamGoodResponse_start (response : MessageBase) :
    (makeDownstreamGoodResponse .new response).isRequest = false ∧
      (makeDownstreamGoodResponse .new response).statusCode = response.statusCode ∧
      (makeDownstreamGoodResponse .new response).reason = response.reason := by
  simp only [makeDownstreamGoodResponse]
  split
  · exact ⟨rfl, rfl, rfl⟩
  · exact ⟨rfl, rfl, rfl⟩

theorem answered_written (methodStr : HttpMethod → Bytes) (answered : Answered response)
    (writer : MessageWriter) :
    ∃ written, writeDownstream methodStr writer response = .ok written := by
  obtain ⟨kind, status, reason⟩ := makeDownstreamGoodResponse_start response
  have lines := downstream_linesSize answered
  have counted := linesSize_le response.fields
  have limited := answered.limited
  have digits : (decimal (response.statusCode.getD 0)).length ≤ 3 := by
    apply decimal_length (by decide)
    cases found : response.statusCode with
    | none => decide
    | some code => exact answered.coded code found
  apply writeDownstream_exists
  rw [headPieces_length_response kind, status, reason]
  simp only [httpMaxHeaderSize] at limited
  omega

theorem asyncWrite_exists {message : MessageBase}
    (small : (message.headPieces methodStr).flatten.length ≤ 1024 * 1024) (writer : MessageWriter) :
    ∃ written, writer.asyncWrite methodStr message = .ok written := by
  obtain ⟨head, serialized, _⟩ := MessageBase.serializeHeaders_ok small
  simp only [MessageWriter.asyncWrite, serialized, bind, Except.bind]
  exact ⟨_, rfl⟩

namespace Session

variable {session : Session}

theorem writeMessage_exists {message : MessageBase}
    (small : (message.headPieces methodStr).flatten.length ≤ 1024 * 1024) (operation : Operation) :
    ∃ next, session.writeMessage methodStr message operation = .ok next := by
  obtain ⟨written, done⟩ := asyncWrite_exists small session.writer
  simp only [writeMessage, done, bind, Except.bind]
  exact ⟨_, rfl⟩

theorem made_written (session : Session) (operation : Operation) {made : Except Fault MessageBase}
    (small : ∃ message, made = .ok message ∧
      (message.headPieces methodStr).flatten.length ≤ 1024 * 1024) :
    ∃ message next, made = .ok message ∧
      session.writeMessage methodStr message operation = .ok next := by
  obtain ⟨message, made, small⟩ := small
  obtain ⟨next, done⟩ := @writeMessage_exists methodStr session message small operation
  exact ⟨message, next, made, done⟩

theorem connected_written (session : Session) (methodStr : HttpMethod → Bytes)
    (operation : Operation) :
    ∃ message next, makeResponse200OkConnected .new = .ok message ∧
      session.writeMessage methodStr message operation = .ok next :=
  session.made_written operation ⟨_, rfl, show 38 ≤ 1024 * 1024 by decide⟩

theorem badGateway_written (session : Session) (methodStr : HttpMethod → Bytes)
    (operation : Operation) :
    ∃ message next, makeResponse502Badgateway .new = .ok message ∧
      session.writeMessage methodStr message operation = .ok next :=
  session.made_written operation ⟨_, rfl, show 47 ≤ 1024 * 1024 by decide⟩

/-- A request inside a secured connection that can be forwarded. -/
def Hosted (request : MessageBase) : Prop :=
  Delivered request ∧ request.header HeaderFields.host ≠ none ∧ request.body.size ≤ 1024 * 1024

/-- What the reader and the `Client` pass on is within http_parser's limits, and
the requests pass the checks that are made on them. -/
def Passes (urls : UrlParser) (regex : Bytes → Option (Bytes → Bool)) (filters : List Bytes)
    (_ : Session) : Completion → Prop
  | .firstRead (.ok request) => Delivered request ∧ Forwardable urls regex filters request
  | .httpsRead (.ok request) => Hosted request
  | .httpRoundtrip (.ok response) | .httpsRoundtrip (.ok response) => Answered response
  | _ => True

theorem respond_exists (answered : Answered response) (operation : Operation) :
    ∃ next, session.respond methodStr response operation = .ok next := by
  obtain ⟨written, done⟩ := answered_written methodStr answered session.writer
  simp only [respond, done, bind, Except.bind]
  exact ⟨_, rfl⟩

theorem pOnFirstMessage_exists (named : ∀ method, (methodStr method).length ≤ 32)
    (passes : session.Passes urls regex filters (.firstRead (.ok request))) :
    ∃ next, session.pOnFirstMessage urls regex filters methodStr request = .ok next := by
  obtain ⟨action, taken⟩ :=
    (pOnFirstMessage_iff urls regex filters named passes.1).mpr passes.2
  simp only [pOnFirstMessage, taken, bind, Except.bind]
  cases action with
  | tunnel | mitmHttps | mitmHttp => exact ⟨_, rfl⟩

theorem httpsConnect_exists (during : session.During Hosted .httpsConnect)
    (course : ConnectCourse) :
    ∃ next, session.callback urls regex filters methodStr (.httpsConnect course) = .ok next := by
  obtain ⟨upstream, result, connected, mode⟩ := session.upstream.asyncConnect_mode course
  simp only [callback, connected, bind, Except.bind]
  split
  · obtain ⟨message, next, made, done⟩ :=
      { session with upstream }.badGateway_written methodStr .httpsBadGateway
    simp only [MitmHttps.pOnUpstreamConnectHandshakeError, made, bind, Except.bind]
    exact ⟨next, done⟩
  · obtain ⟨client, secured, ready⟩ :=
      Connection.becomeSecureClient_ok (mode.trans during.2.2)
    have secure : client.mode ≠ .notSecure := by
      rw [ready.mode]
      exact Mode.noConfusion
    simp only [MitmHttps.pHandshakeUpstream, secured, Connection.pStartHandshake_ok secure, bind,
      Except.bind]
    exact ⟨_, rfl⟩

theorem httpsHandshake_exists (during : session.During Hosted .httpsHandshake) (err : ErrorType) :
    ∃ next, session.callback urls regex filters methodStr (.httpsHandshake err) = .ok next := by
  simp only [callback]
  split
  · exact ⟨_, rfl⟩
  · next fine =>
      have shaken := (Connection.pHandleHandshake_secured during.2.2 err).2 (not_not.mp fine)
      obtain ⟨message, next, made, done⟩ :=
        { session with upstream := (session.upstream.pHandleHandshake err).1 }.connected_written
          methodStr .httpsConnected
      simp only [MitmHttps.onUpstreamHandshake, Connection.getServerCertificate, shaken.2, if_true,
        made, bind, Except.bind]
      exact ⟨next, done⟩

theorem httpsConnected_exists (during : session.During Hosted .httpsConnected) (err : ErrorType) :
    ∃ next, session.callback urls regex filters methodStr (.httpsConnected err) = .ok next := by
  simp only [callback]
  split
  · exact ⟨_, rfl⟩
  · obtain ⟨server, secured, mode⟩ := Connection.becomeSecureServer_ok during.2
    have secure : server.mode ≠ .notSecure := by
      rw [mode]
      exact Mode.noConfusion
    simp only [MitmHttps.onConnected, secured, Connection.pStartHandshake_ok secure, bind,
      Except.bind]
    exact ⟨_, rfl⟩

theorem pInitiateUpstreamRoundtrip_exists (session : Session) :
    ∃ next, MitmHttps.pInitiateUpstreamRoundtrip session = .ok next := by
  obtain ⟨client, secured, _⟩ :=
    @Connection.becomeSecureClient_ok session.openUpstream.upstream rfl
  simp only [MitmHttps.pInitiateUpstreamRoundtrip, secured, bind, Except.bind]
  exact ⟨_, rfl⟩

theorem httpsReconnect_exists (named : ∀ method, (methodStr method).length ≤ 32)
    (during : session.During Hosted .httpsReconnect) (course : ConnectCourse) :
    ∃ next, session.callback urls regex filters methodStr (.httpsReconnect course) = .ok next := by
  obtain ⟨upstream, result, connected, _⟩ := session.upstream.asyncConnect_mode course
  simp only [callback, connected, bind, Except.bind]
  split
  · exact ⟨_, rfl⟩
  · obtain ⟨delivered, hosted⟩ := during.2.2
    obtain ⟨written, done⟩ := (pRoundtripUpstreamHttps_iff named delivered).mpr hosted
    simp only [MitmHttps.pRoundtripUpstream, done, bind, Except.bind]
    exact ⟨_, rfl⟩

theorem tunnelConnect_exists (session : Session) (course : ConnectCourse) :
    ∃ next, session.callback urls regex filters methodStr (.tunnelConnect course) = .ok next := by
  obtain ⟨upstream, result, connected, _⟩ := session.upstream.asyncConnect_mode course
  simp only [callback, connected, bind, Except.bind]
  split
  · obtain ⟨message, next, made, done⟩ :=
      { session with upstream }.badGateway_written methodStr .tunnelBadGateway
    simp only [MitmTunnel.onConnectFailed, made, bind, Except.bind]
    exact ⟨next, done⟩
  · obtain ⟨message, next, made, done⟩ :=
      { session with upstream }.connected_written methodStr .tunnelConnected
    simp only [MitmTunnel.onConnected, made, bind, Except.bind]
    exact ⟨next, done⟩

theorem callback_exists (named : ∀ method, (methodStr method).length ≤ 32)
    {completion : Completion} (during : session.During Hosted completion.operation)
    (passes : session.Passes urls regex filters completion) :
    ∃ next, session.callback urls regex filters methodStr completion = .ok next := by
  cases completion with
  | firstRead result =>
      cases result with
      | error err => exact ⟨_, rfl⟩
      | ok request => exact pOnFirstMessage_exists named passes
  | httpRoundtrip result =>
      cases result with
      | error err => exact ⟨_, rfl⟩
      | ok response => exact respond_exists passes _
  | httpsRoundtrip result =>
      cases result with
      | error err => exact ⟨_, rfl⟩
      | ok response => exact respond_exists passes _
  | httpRead result => exact during.elim
  | httpsConnect course => exact httpsConnect_exists during course
  | httpsHandshake err => exact httpsHandshake_exists during err
  | httpsConnected err => exact httpsConnected_exists during err
  | httpsRead result =>
      cases result with
      | error err => exact ⟨_, rfl⟩
      | ok request => exact pInitiateUpstreamRoundtrip_exists _
  | httpsReconnect course => exact httpsReconnect_exists named during course
  | tunnelConnect course => exact session.tunnelConnect_exists course
  | httpWrite err | httpsWrite err | httpsServerHandshake err | tunnelConnected err =>
      simp only [callback]
      split
      · exact ⟨_, rfl⟩
      · exact ⟨_, rfl⟩
  | httpsBadGateway err | tunnelBadGateway err | tunnel err => exact ⟨_, rfl⟩

/-- In a session whose requests pass their checks there is one operation in
progress until the completion is posted, and none afterwards; at most one request
is forwarded; and every operation that ends is followed by one of a lower rank or
by the completion. -/
theorem session_completes_once (urls : UrlParser) (regex : Bytes → Option (Bytes → Bool))
    (filters : List Bytes) (named : ∀ method, (methodStr method).length ≤ 32) {session : Session}
    (reached : (runs urls regex filters methodStr).Reaches (Passes urls regex filters) session) :
    session.doneCallbacks + session.outstanding.length = 1 ∧ session.forwarded.length ≤ 1 ∧
      ∀ completion, session.Enabled completion → session.Passes urls regex filters completion →
        ∃ next, session.step urls regex filters methodStr completion = .ok next ∧
          next.rank < session.rank := by
  have promised : ∀ (session : Session) request,
      session.Passes urls regex filters (.httpsRead (.ok request)) → Hosted request :=
    fun _ _ passes => passes
  have sound : session.Sound Hosted := reaches_sound promised reached
  refine ⟨?_, sound.sent.single, fun completion enabled passes => ?_⟩
  · rcases sound.course with ⟨idle, posted⟩ | ⟨operation, only, pending, _⟩
    · simp [idle, posted]
    · simp [only, pending]
  · obtain ⟨_, during, _⟩ := sound.ending enabled
    obtain ⟨next, done⟩ : ∃ next, session.step urls regex filters methodStr completion = .ok next :=
      callback_exists named during passes
    refine ⟨next, done, (step_advanced sound enabled (fun request same => ?_) done).2⟩
    subst same
    exact passes

def accepted : Session := handle (.ofServer [] [] [])

def fetched : List Completion :=
  [.firstRead (.ok (getRequest (ascii "http://h.x/"))), .httpRoundtrip (.ok emptyResponse),
    .httpWrite .ok]

theorem fetched_passes (regex : Bytes → Option (Bytes → Bool)) (filters : List Bytes)
    (session : Session) :
    ∀ completion ∈ fetched, session.Passes .slicing regex filters completion := by
  have answered : Answered emptyResponse :=
    ⟨⟨emptyEvents, _, rfl, by decide⟩, by decide, by decide, by decide⟩
  intro completion member
  simp only [fetched, List.mem_cons, List.not_mem_nil, or_false] at member
  rcases member with rfl | rfl | rfl
  · exact ⟨⟨getRequest_parsed, by decide, by decide⟩, by decide, .inr (by decide)⟩
  · exact answered
  · trivial

theorem fetched_reached :
    ∃ session, (runs .slicing CaptureFilter.plainRegex [ascii "("] (fun _ => ascii "GET")).Reaches
        (Passes .slicing CaptureFilter.plainRegex [ascii "("]) session ∧
      session.forwarded.length = 1 ∧ session.outstanding = [] := by
  obtain ⟨session, followed, forwarded, outstanding⟩ :
      ∃ session, fetched.foldlM (Transition.attempt Transition.unguarded Enabled
          (step .slicing CaptureFilter.plainRegex [ascii "("] (fun _ => ascii "GET"))) accepted =
            some session ∧
        session.forwarded.length = 1 ∧ session.outstanding = [] :=
    ⟨_, rfl, rfl, rfl⟩
  exact ⟨session, Transition.ofStep_follow_allowed (fetched_passes _ _)
    (.initial ⟨[], [], [], rfl⟩) followed, forwarded, outstanding⟩

/-- A session that fetches a page ends with its only request forwarded, whatever
the filters are. -/
theorem fetched_session_completes :
    ∃ session : Session, session.forwarded.length = 1 ∧ session.outstanding = [] ∧
      session.doneCallbacks + session.outstanding.length = 1 ∧ session.forwarded.length ≤ 1 ∧
      ∀ completion, session.Enabled completion →
        session.Passes .slicing CaptureFilter.plainRegex [ascii "("] completion →
        ∃ next, session.step .slicing CaptureFilter.plainRegex [ascii "("] (fun _ => ascii "GET")
            completion = .ok next ∧
          next.rank < session.rank := by
  obtain ⟨session, reached, forwarded, outstanding⟩ := fetched_reached
  exact ⟨session, forwarded, outstanding, session_completes_once .slicing
    CaptureFilter.plainRegex [ascii "("] (fun _ => show (ascii "GET").length ≤ 32 by decide) reached⟩

/-! ## Requests that stop a session -/

def postedEvents (piece : Bytes) : List Event :=
  [.messageBegin, .url (ascii "http://h.x/"), .headerField (ascii "Host"), .headerValue (ascii "h.x"),
    .headersComplete (.other 1) 1 1, .body piece, .body piece, .messageComplete]

theorem posted_delivered {piece : Bytes} (small : piece.length + 100 ≤ 1024 * 1024) :
    ∃ request, Delivered request ∧ request.target = ascii "http://h.x/" ∧
      request.method = some (.other 1) ∧ request.body.size = piece.length + piece.length := by
  obtain ⟨context, headed, message⟩ : ∃ context, (ParserContext.pInitialize .new).handle
      (withoutBody (postedEvents piece)) = .ok context ∧
        context.message = getRequest (ascii "http://h.x/") := ⟨_, rfl, by decide⟩
  obtain ⟨body, handled, built, text⟩ := ParserContext.handle_withoutBody BufferChain.empty_built
    (fun part member => by
      have same : part = piece := by simpa [postedEvents] using member
      rw [same]
      exact small) headed
  have fields : (context.withBody body).message = { context.message with body } := rfl
  rw [message] at fields
  refine ⟨(context.withBody body).message, ⟨⟨_, _, handled, rfl⟩, ?_, ?_⟩, ?_, ?_, ?_⟩
  · rw [fields]
    exact Option.some_ne_none _
  · rw [fields]
    change (getRequest (ascii "http://h.x/")).target.length +
      ((getRequest (ascii "http://h.x/")).fields.map lineBytes).sum ≤ _
    decide
  · rw [fields]
    rfl
  · rw [fields]
    rfl
  · have length := congrArg List.length text
    rw [← built.size] at length
    exact length.trans (by simp [postedEvents, bodyBytes]; rfl)

/-- The callback of the first read fails on a target in origin form, on a host that
an invalid filter is tried on, and on a body that does not fit into one allocation;
the completion is not posted. -/
theorem first_request_stops_session :
    (Delivered (getRequest (ascii "/")) ∧
      accepted.step .slicing CaptureFilter.plainRegex [] (fun _ => ascii "GET")
        (.firstRead (.ok (getRequest (ascii "/")))) = .error .noDefaultPort) ∧
    (Delivered (connectRequest (ascii "h.x:443")) ∧
      accepted.step .slicing CaptureFilter.plainRegex [ascii "("] (fun _ => ascii "GET")
        (.firstRead (.ok (connectRequest (ascii "h.x:443")))) = .error .regexError) ∧
    ∃ request, Delivered request ∧ request.target = ascii "http://h.x/" ∧
      ∀ next, accepted.step .slicing CaptureFilter.plainRegex [] (fun _ => ascii "GET")
        (.firstRead (.ok request)) ≠ .ok next := by
  refine ⟨⟨⟨⟨getEvents (ascii "/"), _, rfl, by decide⟩, by decide, by decide⟩, rfl⟩,
    ⟨⟨⟨connectEvents (ascii "h.x:443"), _, rfl, by decide⟩, by decide, by decide⟩, rfl⟩, ?_⟩
  have long : (List.replicate (768 * 1024) (0 : UInt8)).length = 768 * 1024 := List.length_replicate
  obtain ⟨request, delivered, target, method, size⟩ :=
    @posted_delivered (List.replicate (768 * 1024) 0) (by omega)
  refine ⟨request, delivered, target, fun next done => ?_⟩
  obtain ⟨action, taken, _⟩ := exists_ok_of_bind done
  have named : ∀ _ : HttpMethod, (ascii "GET").length ≤ 32 := fun _ => by decide
  have passed := (pOnFirstMessage_iff .slicing CaptureFilter.plainRegex [] named delivered).mp
    ⟨action, taken⟩
  rcases passed.2 with ⟨connect, _⟩ | ⟨_, _, fits⟩
  · rw [method] at connect
    cases connect
  · omega

end Session

end Marvin.Server
