import Marvin.Server.Framing
import Marvin.Server.MitmSession

namespace Marvin.Server

open Marvin.Data Marvin.Buffer Marvin.Http Marvin.Message Marvin.Helpers Marvin.Collector

/-! # What holds throughout a session

A session has one operation in progress, or has posted its completion.  Every
callback starts the next operation or ends the session, and the order of the
operations is that of their ranks.  The requests that `MitmHttps` writes upstream
go to a client that was secured by `become_secure_client` and has shaken hands.
-/

theorem makeDownstreamGoodResponse_closes (response : MessageBase) :
    (makeDownstreamGoodResponse .new response).isConnectionKeepAlive = false := by
  apply MessageBase.not_keepAlive_of_close
  have headed : KeyedList.named (key HeaderFields.connection) (headedFields response) =
      [⟨key HeaderFields.connection, HeaderFields.connectionClose⟩] :=
    KeyedList.named_put_self _ (KeyedList.nodup_keys_putAll List.nodup_nil)
  have fields : (makeDownstreamGoodResponse .new response).fields =
      if response.body.size > 0 then KeyedList.put (key HeaderFields.contentLength)
        (decimal response.body.size) (KeyedList.remove (key HeaderFields.transferEncoding)
          (headedFields response)) else headedFields response :=
    fields_makeDownstreamGoodResponse .new response
  have closing : KeyedList.named (key HeaderFields.connection)
      (makeDownstreamGoodResponse .new response).fields =
        [⟨key HeaderFields.connection, HeaderFields.connectionClose⟩] := by
    rw [fields]
    split
    · rw [KeyedList.named_put_ne (by decide), KeyedList.named_remove_ne (by decide), headed]
    · exact headed
  rw [MessageBase.header_eq_lookup, KeyedList.lookup]
  exact congrArg (fun entries => entries.head?.map Entry.value) closing

/-- Later operations of a session have lower ranks. -/
def Operation.rank : Operation → Nat
  | .firstRead => 9
  | .httpsConnect => 8
  | .httpsHandshake => 7
  | .httpsConnected => 6
  | .httpsServerHandshake => 5
  | .httpsRead => 4
  | .httpsReconnect => 3
  | .tunnelConnect => 3
  | .httpRead => 3
  | .httpsRoundtrip => 2
  | .httpRoundtrip => 2
  | .tunnelConnected => 2
  | .httpsWrite => 1
  | .httpWrite => 1
  | .httpsBadGateway => 1
  | .tunnelBadGateway => 1
  | .tunnel => 1

theorem Operation.rank_pos (operation : Operation) : 0 < operation.rank := by
  cases operation <;> decide

namespace Session

variable (pledge : MessageBase → Prop)

/-- What is known while the operation is in progress.  The request that waits for
its upstream connection keeps what was promised when it was read. -/
def During (session : Session) : Operation → Prop
  | .firstRead => session.forwarded = [] ∧ session.downstream.mode = .notSecure
  | .httpRoundtrip | .httpsRoundtrip => True
  | .httpWrite | .httpsWrite => session.downstreamResponse.isConnectionKeepAlive = false
  | .httpRead => False
  | .httpsConnect =>
      session.forwarded = [] ∧ session.downstream.mode = .notSecure ∧
        session.upstream.mode = .notSecure
  | .httpsHandshake =>
      session.forwarded = [] ∧ session.downstream.mode = .notSecure ∧
        session.upstream.SecuredClient
  | .httpsConnected => session.forwarded = [] ∧ session.downstream.mode = .notSecure
  | .httpsReconnect =>
      session.forwarded = [] ∧ session.upstream.SecuredClient ∧ pledge session.downstreamRequest
  | .httpsServerHandshake | .httpsRead => session.forwarded = []
  | .httpsBadGateway | .tunnelConnect | .tunnelBadGateway | .tunnelConnected | .tunnel => True

/-- What is known of the requests written so far. -/
structure Sent (session : Session) : Prop where
  single : session.forwarded.length ≤ 1
  secured : ∀ sent ∈ session.forwarded, ∀ connection, sent.via = some connection →
    connection.SecuredClient ∧ connection.Handshaken

/-- The session between the end of an operation and the next one. -/
structure Between (session : Session) : Prop where
  idle : session.outstanding = []
  pending : session.doneCallbacks = 0
  sent : session.Sent

/-- A session in progress or ended. -/
structure Sound (session : Session) : Prop where
  course : (session.outstanding = [] ∧ session.doneCallbacks = 1) ∨
    ∃ operation, session.outstanding = [operation] ∧ session.doneCallbacks = 0 ∧
      session.During pledge operation
  sent : session.Sent

def rank (session : Session) : Nat :=
  (session.outstanding.map Operation.rank).sum

/-- The session has gone on to an operation below a bound, or has ended. -/
def Advanced (bound : Nat) (session : Session) : Prop :=
  session.Sound pledge ∧ session.rank < bound

variable {pledge}

theorem Between.ended {session : Session} (between : session.Between) {bound : Nat}
    (positive : 0 < bound) : Advanced pledge bound session.pConnectionEnd := by
  have idle : session.pConnectionEnd.outstanding = [] := between.idle
  refine ⟨⟨.inl ⟨idle, ?_⟩, between.sent.single, between.sent.secured⟩, ?_⟩
  · change session.doneCallbacks + 1 = 1
    rw [between.pending]
  · simpa [rank, idle] using positive

theorem Between.started {session : Session} (between : session.Between) {operation : Operation}
    (during : session.During pledge operation) {bound : Nat} (below : operation.rank < bound) :
    Advanced pledge bound (session.start operation) := by
  have only : (session.start operation).outstanding = [operation] := by
    rw [start, between.idle]
    rfl
  have same : (session.start operation).During pledge operation := by
    cases operation <;> exact during
  refine ⟨⟨.inr ⟨operation, only, between.pending, same⟩, between.sent.single,
    between.sent.secured⟩, ?_⟩
  simpa [rank, only] using below

theorem Between.same {session other : Session} (between : session.Between)
    (outstanding : other.outstanding = session.outstanding)
    (callbacks : other.doneCallbacks = session.doneCallbacks)
    (forwarded : other.forwarded = session.forwarded) : other.Between := by
  refine ⟨outstanding.trans between.idle, callbacks.trans between.pending, ?_, ?_⟩
  · rw [forwarded]
    exact between.sent.single
  · rw [forwarded]
    exact between.sent.secured

section Callbacks

variable {urls : UrlParser} {regex : Bytes → Option (Bytes → Bool)}
  {filters : List Bytes} {methodStr : HttpMethod → Bytes}
  {session next : Session} {bound : Nat}

theorem Between.forwarding (between : session.Between) (first : session.forwarded = [])
    (written : Written) {via : Option Connection}
    (secured : ∀ connection, via = some connection →
      connection.SecuredClient ∧ connection.Handshaken) :
    (session.forward written via).Between := by
  have only : (session.forward written via).forwarded = [⟨written, via⟩] := by
    rw [forward, first]
    rfl
  refine ⟨between.idle, between.pending, by simp [only], fun sent member connection used => ?_⟩
  rw [only, List.mem_singleton] at member
  subst member
  exact secured connection used

theorem writeMessage_advanced {message : MessageBase} {operation : Operation}
    (done : session.writeMessage methodStr message operation = .ok next) (between : session.Between)
    (during : { session with downstreamResponse := message }.During pledge operation)
    (below : operation.rank < bound) : Advanced pledge bound next := by
  obtain ⟨_, _, rest⟩ := exists_ok_of_bind done
  obtain rfl := Except.ok.inj rest
  apply Between.started
  · exact between.same rfl rfl rfl
  · exact during
  · exact below

theorem respond_advanced (between : session.Between) {response : MessageBase}
    {operation : Operation} (writing : operation = .httpWrite ∨ operation = .httpsWrite)
    (below : operation.rank < bound)
    (done : session.respond methodStr response operation = .ok next) : Advanced pledge bound next := by
  obtain ⟨_, _, rest⟩ := exists_ok_of_bind done
  obtain rfl := Except.ok.inj rest
  apply Between.started
  · exact between.same rfl rfl rfl
  · rcases writing with rfl | rfl
    · exact makeDownstreamGoodResponse_closes response
    · exact makeDownstreamGoodResponse_closes response
  · exact below

/-- A response that closes the connection is the last one. -/
theorem pOnRequestCompleted_advanced (between : session.Between)
    (closes : session.downstreamResponse.isConnectionKeepAlive = false) (read : Operation)
    (positive : 0 < bound) : Advanced pledge bound (session.pOnRequestCompleted read) := by
  rw [pOnRequestCompleted, closes, Bool.and_false, if_neg Bool.false_ne_true]
  exact between.ended positive

theorem pOnFirstMessage_advanced (between : session.Between)
    (during : session.During pledge .firstRead) {request : MessageBase}
    (done : session.pOnFirstMessage urls regex filters methodStr request = .ok next) :
    Advanced pledge Operation.firstRead.rank next := by
  obtain ⟨action, _, rest⟩ := exists_ok_of_bind done
  cases action with
  | tunnel scheme host port =>
      obtain rfl := Except.ok.inj rest
      apply Between.started
      · exact between.same rfl rfl rfl
      · trivial
      · decide
  | mitmHttps scheme host port =>
      obtain rfl := Except.ok.inj rest
      apply Between.started
      · exact between.same rfl rfl rfl
      · exact ⟨during.1, during.2, rfl⟩
      · decide
  | mitmHttp written =>
      obtain rfl := Except.ok.inj rest
      have asked : { session with downstreamRequest := request }.Between :=
        between.same rfl rfl rfl
      apply Between.started
      · exact asked.forwarding during.1 written (fun connection used => by cases used)
      · trivial
      · decide

theorem Between.withUpstream (between : session.Between) (upstream : Connection) :
    { session with upstream }.Between :=
  between.same rfl rfl rfl

theorem Between.finished (between : session.Between) {operation : Operation}
    (done : Except.ok session.pConnectionEnd = (.ok next : Except Fault Session)) :
    Advanced pledge operation.rank next := by
  obtain rfl := Except.ok.inj done
  exact between.ended operation.rank_pos

theorem httpsConnect_advanced (between : session.Between) (during : session.During pledge .httpsConnect)
    {course : ConnectCourse}
    (done : session.callback urls regex filters methodStr (.httpsConnect course) = .ok next) :
    Advanced pledge Operation.httpsConnect.rank next := by
  obtain ⟨upstream, result, connected, mode⟩ := session.upstream.asyncConnect_mode course
  simp only [callback, connected, bind, Except.bind] at done
  split at done
  · obtain ⟨response, _, rest⟩ := exists_ok_of_bind done
    exact writeMessage_advanced rest (between.withUpstream upstream) trivial (by decide)
  · obtain ⟨client, secured, rest⟩ := exists_ok_of_bind done
    obtain ⟨shaking, begun, rest⟩ := exists_ok_of_bind rest
    obtain rfl := Except.ok.inj rest
    have ready := Connection.becomeSecureClient_secured secured
    have secure : client.mode ≠ .notSecure := by
      rw [ready.mode]
      exact Mode.noConfusion
    obtain rfl := Except.ok.inj ((Connection.pStartHandshake_ok secure).symm.trans begun)
    apply Between.started
    · exact between.withUpstream client
    · exact ⟨during.1, during.2.1, ready⟩
    · decide

theorem httpsHandshake_advanced (between : session.Between)
    (during : session.During pledge .httpsHandshake) {err : ErrorType}
    (done : session.callback urls regex filters methodStr (.httpsHandshake err) = .ok next) :
    Advanced pledge Operation.httpsHandshake.rank next := by
  simp only [callback] at done
  split at done
  · exact (between.withUpstream _).finished done
  · obtain ⟨_, _, rest⟩ := exists_ok_of_bind done
    obtain ⟨response, _, rest⟩ := exists_ok_of_bind rest
    exact writeMessage_advanced rest (between.withUpstream _) ⟨during.1, during.2.1⟩ (by decide)

theorem httpsConnected_advanced (between : session.Between)
    (during : session.During pledge .httpsConnected) {err : ErrorType}
    (done : session.callback urls regex filters methodStr (.httpsConnected err) = .ok next) :
    Advanced pledge Operation.httpsConnected.rank next := by
  simp only [callback] at done
  split at done
  · exact between.finished done
  · obtain ⟨secured, _, rest⟩ := exists_ok_of_bind done
    obtain ⟨shaking, _, rest⟩ := exists_ok_of_bind rest
    obtain rfl := Except.ok.inj rest
    apply Between.started
    · exact between.same rfl rfl rfl
    · exact during.1
    · decide

theorem httpsReconnect_advanced (between : session.Between)
    (during : session.During pledge .httpsReconnect) {course : ConnectCourse}
    (done : session.callback urls regex filters methodStr (.httpsReconnect course) = .ok next) :
    Advanced pledge Operation.httpsReconnect.rank next := by
  obtain ⟨upstream, result, connected, _⟩ := session.upstream.asyncConnect_mode course
  simp only [callback, connected, bind, Except.bind] at done
  split at done
  · exact (between.withUpstream upstream).finished done
  · next fine =>
      obtain rfl : result = .ok := not_not.mp fine
      obtain ⟨written, _, rest⟩ := exists_ok_of_bind done
      obtain rfl := Except.ok.inj rest
      apply Between.started
      · apply (between.withUpstream upstream).forwarding during.1 written
        intro connection used
        obtain rfl := Option.some.inj used
        exact Connection.asyncConnect_secured during.2.1 connected
      · trivial
      · decide

theorem tunnelConnect_advanced (between : session.Between) {course : ConnectCourse}
    (done : session.callback urls regex filters methodStr (.tunnelConnect course) = .ok next) :
    Advanced pledge Operation.tunnelConnect.rank next := by
  obtain ⟨upstream, result, connected, _⟩ := session.upstream.asyncConnect_mode course
  simp only [callback, connected, bind, Except.bind] at done
  split at done
  · obtain ⟨response, _, rest⟩ := exists_ok_of_bind done
    exact writeMessage_advanced rest (between.withUpstream upstream) trivial (by decide)
  · obtain ⟨response, _, rest⟩ := exists_ok_of_bind done
    exact writeMessage_advanced rest (between.withUpstream upstream) trivial (by decide)

/-- Every callback that returns has started one operation, of a lower rank, or
has posted the completion. -/
theorem callback_advanced (between : session.Between) {completion : Completion}
    (promised : ∀ request, completion = .httpsRead (.ok request) → pledge request)
    (during : session.During pledge completion.operation)
    (done : session.callback urls regex filters methodStr completion = .ok next) :
    Advanced pledge completion.operation.rank next := by
  cases completion with
  | firstRead result =>
      cases result with
      | error err => exact between.finished done
      | ok request => exact pOnFirstMessage_advanced between during done
  | httpRoundtrip result =>
      cases result with
      | error err => exact between.finished done
      | ok response => exact respond_advanced between (.inl rfl) (Nat.lt_add_one _) done
  | httpWrite err | httpsWrite err =>
      simp only [callback] at done
      split at done
      · exact between.finished done
      · obtain rfl := Except.ok.inj done
        exact pOnRequestCompleted_advanced between during _ (Operation.rank_pos _)
  | httpRead result => exact during.elim
  | httpsConnect course => exact httpsConnect_advanced between during done
  | httpsHandshake err => exact httpsHandshake_advanced between during done
  | httpsConnected err => exact httpsConnected_advanced between during done
  | httpsServerHandshake err =>
      simp only [callback] at done
      split at done
      · obtain rfl := Except.ok.inj done
        apply Between.ended
        · exact between.same rfl rfl rfl
        · exact Operation.rank_pos _
      · obtain rfl := Except.ok.inj done
        apply Between.started
        · exact between.same rfl rfl rfl
        · exact during
        · exact Nat.lt_add_one _
  | httpsRead result =>
      cases result with
      | error err => exact between.finished done
      | ok request =>
          obtain ⟨client, secured, rest⟩ := exists_ok_of_bind done
          obtain rfl := Except.ok.inj rest
          apply Between.started
          · exact between.same rfl rfl rfl
          · exact ⟨during, Connection.becomeSecureClient_secured secured, promised request rfl⟩
          · exact Nat.lt_add_one _
  | httpsReconnect course => exact httpsReconnect_advanced between during done
  | httpsRoundtrip result =>
      cases result with
      | error err => exact between.finished done
      | ok response => exact respond_advanced between (.inr rfl) (Nat.lt_add_one _) done
  | tunnelConnect course => exact tunnelConnect_advanced between done
  | tunnelConnected err =>
      simp only [callback] at done
      split at done
      · exact between.finished done
      · obtain rfl := Except.ok.inj done
        apply between.started
        · trivial
        · exact Nat.lt_add_one _
  | httpsBadGateway err | tunnelBadGateway err | tunnel err =>
      exact between.finished done

def ending (session : Session) (completion : Completion) : Session :=
  { session with outstanding := session.outstanding.erase completion.operation }

theorem Sound.ending (sound : session.Sound pledge) {completion : Completion}
    (enabled : session.Enabled completion) :
    (session.ending completion).Between ∧
      (session.ending completion).During pledge completion.operation ∧
      session.rank = completion.operation.rank := by
  rcases sound.course with ⟨idle, _⟩ | ⟨operation, only, pending, during⟩
  · rw [Enabled, idle] at enabled
    cases enabled
  · have same : completion.operation = operation := by
      rw [Enabled, only] at enabled
      exact List.mem_singleton.mp enabled
    subst same
    have emptied : session.outstanding.erase completion.operation = [] := by simp [only]
    refine ⟨⟨emptied, pending, sound.sent.single, sound.sent.secured⟩, ?_, by simp [rank, only]⟩
    cases completion <;> exact during

theorem step_advanced (sound : session.Sound pledge) {completion : Completion}
    (enabled : session.Enabled completion)
    (promised : ∀ request, completion = .httpsRead (.ok request) → pledge request)
    (done : session.step urls regex filters methodStr completion = .ok next) :
    Advanced pledge session.rank next := by
  obtain ⟨between, during, ranked⟩ := sound.ending enabled
  rw [ranked]
  exact callback_advanced between promised during done

/-- Every state of a session is sound, if the guard is enough for the promise. -/
theorem reaches_sound {guard : Session → Completion → Prop}
    (promised : ∀ session request, guard session (.httpsRead (.ok request)) → pledge request)
    (reached : (runs urls regex filters methodStr).Reaches guard session) :
    session.Sound pledge := by
  induction reached with
  | initial begun =>
      obtain ⟨scheme, server, port, rfl⟩ := begun
      refine ⟨.inr ⟨.firstRead, rfl, rfl, rfl, rfl⟩, Nat.zero_le _, fun sent member => ?_⟩
      cases member
  | step _ allowed taken sound =>
      refine (step_advanced sound taken.1 (fun request same => ?_) taken.2).1
      exact promised _ request (same ▸ allowed)

end Callbacks

/-! ## The host name

`become_secure_client` sets the host to check on the context after it has made
the stream, so no handshake checks it. -/

/-- Whatever `MitmHttps` writes upstream goes to a client that has shaken hands
with a verified peer, but that would have accepted a certificate for any name. -/
theorem upstream_host_unchecked (urls : UrlParser) (regex : Bytes → Option (Bytes → Bool))
    (filters : List Bytes) (methodStr : HttpMethod → Bytes) {session : Session}
    (reached : (runs urls regex filters methodStr).Reaches Transition.unguarded session)
    {sent : Forwarded} (written : sent ∈ session.forwarded) {connection : Connection}
    (used : sent.via = some connection) :
    connection.mode = .secureClient ∧
      (∃ stream, connection.sslStream = some stream ∧ stream.handshaken = true ∧
        stream.verifyPeer = true) ∧
      ∀ host, ¬ connection.ChecksHost host := by
  obtain ⟨secured, shaken, present, done⟩ :=
    (reaches_sound (fun _ _ _ => trivial) reached : session.Sound (fun _ => True)).sent.secured sent
      written connection used
  obtain ⟨stream, found, verifies, _⟩ := secured.stream
  obtain rfl := Option.some.inj (present.symm.trans found)
  exact ⟨secured.mode, ⟨shaken, present, done, verifies⟩, secured.not_checksHost⟩

def smooth : ConnectCourse := ⟨.ok, [.ok], .ok⟩

def captured : List Completion :=
  [.firstRead (.ok (connectRequest (ascii "h.x:443"))), .httpsConnect smooth, .httpsHandshake .ok,
    .httpsConnected .ok, .httpsServerHandshake .ok, .httpsRead (.ok (getRequest (ascii "/"))),
    .httpsReconnect smooth]

def capturing : Session → Completion → Option Session :=
  Transition.attempt Transition.unguarded Enabled
    (step .slicing CaptureFilter.plainRegex [ascii ".*"] (fun _ => ascii "GET"))

theorem captured_reached :
    ∃ session sent connection,
      (runs .slicing CaptureFilter.plainRegex [ascii ".*"] (fun _ => ascii "GET")).Reaches
        Transition.unguarded session ∧ session.upstreamHost = ascii "h.x" ∧
      sent ∈ session.forwarded ∧ sent.via = some connection := by
  obtain ⟨session, followed, host, sent, connection, written, used⟩ :
      ∃ session, captured.foldlM capturing (handle (.ofServer [] [] [])) = some session ∧
        session.upstreamHost = ascii "h.x" ∧ ∃ sent connection, sent ∈ session.forwarded ∧
          sent.via = some connection :=
    ⟨_, rfl, rfl, _, _, List.mem_singleton_self _, rfl⟩
  exact ⟨session, sent, connection,
    Transition.ofStep_follow (.initial ⟨[], [], [], rfl⟩) followed, host, written, used⟩

theorem captured_upstream_unchecked :
    ∃ (session : Session) (sent : Forwarded) (connection : Connection),
      sent ∈ session.forwarded ∧ sent.via = some connection ∧ connection.mode = .secureClient ∧
      (∃ stream, connection.sslStream = some stream ∧ stream.handshaken = true ∧
        stream.verifyPeer = true) ∧
      ∀ host, ¬ connection.ChecksHost host := by
  obtain ⟨session, sent, connection, reached, _, written, used⟩ := captured_reached
  exact ⟨session, sent, connection, written, used,
    upstream_host_unchecked .slicing _ _ _ reached written used⟩

/-- A request for `h.x` is sent to a server whose name was not checked. -/
theorem captured_host_not_checked :
    ∃ session sent connection,
      (runs .slicing CaptureFilter.plainRegex [ascii ".*"] (fun _ => ascii "GET")).Reaches
        Transition.unguarded session ∧ session.upstreamHost = ascii "h.x" ∧
      sent ∈ session.forwarded ∧ sent.via = some connection ∧
      ¬ connection.ChecksHost (ascii "h.x") := by
  obtain ⟨session, sent, connection, reached, host, written, used⟩ := captured_reached
  have sound : session.Sound (fun _ => True) := reaches_sound (fun _ _ _ => trivial) reached
  have secured := (sound.sent.secured sent written connection used).1
  exact ⟨session, sent, connection, reached, host, written, used, secured.not_checksHost _⟩

end Session

end Marvin.Server
