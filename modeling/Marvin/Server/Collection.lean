import Marvin.Server.SessionInvariant

namespace Marvin.Server

open Marvin.Data Marvin.Buffer Marvin.Http Marvin.Message Marvin.Helpers Marvin.Collector

/-! # What the collector is told

Both delegates call `collect` in the callback of the upstream round trip, before
they write the response.  They have two sets of members for a scheme and a host.
The constructors assign `m_upstream_scheme` and `m_upstream_host`; `m_scheme` and
`m_host` are never assigned, and `MitmHttp` passes these to `collect`.
-/

/-- The members of `MitmHttp` and `MitmHttps` that name a server. -/
structure Delegate where
  scheme : Bytes
  host : Bytes
  port : Bytes
  upstreamScheme : Bytes
  upstreamHost : Bytes
  upstreamPort : Bytes
deriving DecidableEq, Repr

/-- Both constructors. -/
def Delegate.new (scheme host port : Bytes) : Delegate :=
  ⟨[], [], [], scheme, host, port⟩

/-- What a delegate does with an exchange. -/
inductive Effect where
  /-- The request of the client is given to a `Client` of the named server. -/
  | forward (scheme host port : Bytes) (request : MessageBase)
  | collect (scheme host : Bytes) (request response : MessageBase)
  | respond (response : MessageBase)
deriving DecidableEq, Repr

/-- A session with the members that the collector's arguments come from, and what
was done with exchanges so far. -/
structure Collecting where
  session : Session
  /-- `m_scheme` of `MitmApp`. -/
  scheme : Bytes
  /-- `m_host` of `MitmApp`. -/
  host : Bytes
  delegate : Delegate
  effects : List Effect
deriving DecidableEq, Repr

namespace MitmHttp

def forwards (delegate : Delegate) (request : MessageBase) : Effect :=
  .forward delegate.upstreamScheme delegate.upstreamHost delegate.upstreamPort request

/-- The callback of `p_initiate_upstream_roundtrip`. -/
def responds (delegate : Delegate) (request downMsg : MessageBase) : List Effect :=
  [.collect delegate.scheme delegate.host request downMsg, .respond downMsg]

end MitmHttp

namespace MitmHttps

/-- The `Client` is given the connection that was made. -/
def forwards (connection : Connection) (request : MessageBase) : Effect :=
  .forward connection.scheme connection.server connection.port request

/-- The callback of `p_initiate_upstream_roundtrip`. -/
def responds (delegate : Delegate) (request downMsg : MessageBase) : List Effect :=
  [.collect delegate.upstreamScheme delegate.upstreamHost request downMsg, .respond downMsg]

end MitmHttps

namespace Collecting

variable (urls : UrlParser) (regex : Bytes → Option (Bytes → Bool))
    (filters : List Bytes) (methodStr : HttpMethod → Bytes)

def handle (downstream : Connection) : Collecting :=
  ⟨.handle downstream, [], [], .new [] [] [], []⟩

def named (collecting : Collecting) : Completion → Except Fault Collecting
  | .firstRead (.ok request) => do
      let uri ← Uri.ofText urls request.target
      return { collecting with
        scheme := uri.scheme
        host := uri.server
        delegate := .new uri.scheme uri.server (signedDecimal uri.port) }
  | _ => return collecting

/-- What the callback of an operation does with an exchange. -/
def handled (collecting : Collecting) : Completion → Except Fault (List Effect)
  | .firstRead (.ok request) =>
      if request.method = some .connect then return []
      else return [MitmHttp.forwards collecting.delegate request]
  | .httpRead (.ok _) =>
      return [MitmHttp.forwards collecting.delegate collecting.session.downstreamRequest]
  | .httpRoundtrip (.ok response) =>
      return MitmHttp.responds collecting.delegate collecting.session.downstreamRequest
        (makeDownstreamGoodResponse .new response)
  | .httpsReconnect course => do
      let (upstream, err) ← collecting.session.upstream.asyncConnect course
      if err ≠ .ok then return []
      else return [MitmHttps.forwards upstream collecting.session.downstreamRequest]
  | .httpsRoundtrip (.ok response) =>
      return MitmHttps.responds collecting.delegate collecting.session.downstreamRequest
        (makeDownstreamGoodResponse .new response)
  | _ => return []

def step (collecting : Collecting) (completion : Completion) : Except Fault Collecting := do
  let session ← collecting.session.step urls regex filters methodStr completion
  let collecting ← collecting.named urls completion
  let effects ← collecting.handled completion
  return { collecting with session, effects := collecting.effects ++ effects }

def Enabled (collecting : Collecting) (completion : Completion) : Prop :=
  collecting.session.Enabled completion

instance (collecting : Collecting) : DecidablePred collecting.Enabled := fun completion =>
  inferInstanceAs (Decidable (collecting.session.Enabled completion))

/-- The state of a session once the operations have ended as listed. -/
def after (downstream : Connection) (completions : List Completion) : Option Collecting :=
  completions.foldlM
    (Transition.attempt Transition.unguarded Enabled (step urls regex filters methodStr))
    (handle downstream)

end Collecting

/-- Every exchange is collected once, with the scheme and the host its request was
sent to, and then its response is written; the last one may still be upstream. -/
def CollectedAsSent (scheme host : Bytes) : List Effect → Prop
  | [] => True
  | [.forward target server _ _] => target = scheme ∧ server = host
  | .forward target server _ request :: .collect seen name asked answer :: .respond written ::
      rest =>
      (target = scheme ∧ server = host) ∧ (seen = target ∧ name = server) ∧ asked = request ∧
        answer = written ∧ CollectedAsSent scheme host rest
  | _ => False

/-- `MitmHttp` gets no response, or the first request names no server. -/
def Spared (urls : UrlParser) (completions : List Completion) : Prop :=
  (∀ response, .httpRoundtrip (.ok response) ∉ completions) ∨
    ∃ request rest uri, completions = .firstRead (.ok request) :: rest ∧
      Uri.ofText urls request.target = .ok uri ∧ uri.scheme = [] ∧ uri.server = []

namespace Session

/-! ## What a callback leaves as it is -/

/-- The request and the upstream server stay, and what is started is listed. -/
structure Kept (session next : Session) (started : List Operation) : Prop where
  request : next.downstreamRequest = session.downstreamRequest
  scheme : next.upstreamScheme = session.upstreamScheme
  host : next.upstreamHost = session.upstreamHost
  outstanding : ∀ operation ∈ next.outstanding,
    operation ∈ session.outstanding ∨ operation ∈ started

/-- What the callbacks after the first start, the first request of a secured client
apart. -/
def successors : Operation → List Operation
  | .httpRoundtrip => [.httpWrite]
  | .httpsConnect => [.httpsBadGateway, .httpsHandshake]
  | .httpsHandshake => [.httpsConnected]
  | .httpsConnected => [.httpsServerHandshake]
  | .httpsServerHandshake => [.httpsRead]
  | .httpsReconnect => [.httpsRoundtrip]
  | .httpsRoundtrip => [.httpsWrite]
  | .tunnelConnect => [.tunnelBadGateway, .tunnelConnected]
  | .tunnelConnected => [.tunnel]
  | _ => []

variable {urls : UrlParser} {regex : Bytes → Option (Bytes → Bool)}
  {filters : List Bytes} {methodStr : HttpMethod → Bytes}
  {session other next : Session} {operation : Operation} {started : List Operation}

/-- What a callback does to the connections and to the response leaves the rest. -/
theorem Kept.same (request : other.downstreamRequest = session.downstreamRequest)
    (scheme : other.upstreamScheme = session.upstreamScheme)
    (host : other.upstreamHost = session.upstreamHost)
    (outstanding : other.outstanding = session.outstanding) : Kept session other started := by
  refine ⟨request, scheme, host, fun begun member => ?_⟩
  rw [outstanding] at member
  exact .inl member

theorem Kept.refl (session : Session) : Kept session session started :=
  Kept.same rfl rfl rfl rfl

theorem Kept.start (kept : Kept session other started) (listed : operation ∈ started) :
    Kept session (other.start operation) started := by
  refine ⟨kept.request, kept.scheme, kept.host, fun begun member => ?_⟩
  rcases List.mem_append.mp member with old | new
  · exact kept.outstanding begun old
  · rw [List.mem_singleton] at new
    exact .inr (new ▸ listed)

theorem Kept.ended (kept : Kept session other started)
    (done : Except.ok other.pConnectionEnd = (.ok next : Except Fault Session)) :
    Kept session next started := by
  obtain rfl := Except.ok.inj done
  exact ⟨kept.request, kept.scheme, kept.host, kept.outstanding⟩

theorem Kept.writeMessage (kept : Kept session other started) {message : MessageBase}
    (done : other.writeMessage methodStr message operation = .ok next)
    (listed : operation ∈ started) : Kept session next started := by
  obtain ⟨_, _, rest⟩ := exists_ok_of_bind done
  obtain rfl := Except.ok.inj rest
  apply Kept.start
  · exact ⟨kept.request, kept.scheme, kept.host, kept.outstanding⟩
  · exact listed

theorem Kept.withUpstream (session : Session) (upstream : Connection) :
    Kept session { session with upstream } started :=
  Kept.same rfl rfl rfl rfl

theorem respond_kept {response : MessageBase}
    (done : session.respond methodStr response operation = .ok next)
    (listed : operation ∈ started) : Kept session next started := by
  obtain ⟨_, _, rest⟩ := exists_ok_of_bind done
  obtain rfl := Except.ok.inj rest
  apply Kept.start
  · exact Kept.same rfl rfl rfl rfl
  · exact listed

theorem httpsConnect_kept {course : ConnectCourse}
    (done : session.callback urls regex filters methodStr (.httpsConnect course) = .ok next) :
    Kept session next (successors .httpsConnect) := by
  obtain ⟨upstream, result, made, _⟩ := session.upstream.asyncConnect_mode course
  simp only [callback, made, bind, Except.bind] at done
  split at done
  · obtain ⟨response, _, rest⟩ := exists_ok_of_bind done
    exact (Kept.withUpstream session upstream).writeMessage rest List.mem_cons_self
  · obtain ⟨client, _, rest⟩ := exists_ok_of_bind done
    obtain ⟨shaking, _, rest⟩ := exists_ok_of_bind rest
    obtain rfl := Except.ok.inj rest
    apply Kept.start
    · exact Kept.withUpstream session shaking
    · exact List.mem_cons_of_mem _ List.mem_cons_self

theorem httpsHandshake_kept {err : ErrorType}
    (done : session.callback urls regex filters methodStr (.httpsHandshake err) = .ok next) :
    Kept session next (successors .httpsHandshake) := by
  simp only [callback] at done
  split at done
  · exact (Kept.withUpstream session _).ended done
  · obtain ⟨_, _, rest⟩ := exists_ok_of_bind done
    obtain ⟨response, _, rest⟩ := exists_ok_of_bind rest
    exact (Kept.withUpstream session _).writeMessage rest List.mem_cons_self

theorem httpsConnected_kept {err : ErrorType}
    (done : session.callback urls regex filters methodStr (.httpsConnected err) = .ok next) :
    Kept session next (successors .httpsConnected) := by
  simp only [callback] at done
  split at done
  · exact (Kept.refl session).ended done
  · obtain ⟨secured, _, rest⟩ := exists_ok_of_bind done
    obtain ⟨shaking, _, rest⟩ := exists_ok_of_bind rest
    obtain rfl := Except.ok.inj rest
    apply Kept.start
    · exact Kept.same rfl rfl rfl rfl
    · exact List.mem_cons_self

theorem httpsServerHandshake_kept {err : ErrorType}
    (done : session.callback urls regex filters methodStr (.httpsServerHandshake err) = .ok next) :
    Kept session next (successors .httpsServerHandshake) := by
  simp only [callback] at done
  split at done
  · obtain rfl := Except.ok.inj done
    exact Kept.same rfl rfl rfl rfl
  · obtain rfl := Except.ok.inj done
    apply Kept.start
    · exact Kept.same rfl rfl rfl rfl
    · exact List.mem_cons_self

theorem httpsReconnect_kept {course : ConnectCourse}
    (done : session.callback urls regex filters methodStr (.httpsReconnect course) = .ok next) :
    Kept session next (successors .httpsReconnect) := by
  obtain ⟨upstream, result, made, _⟩ := session.upstream.asyncConnect_mode course
  simp only [callback, made, bind, Except.bind] at done
  split at done
  · exact (Kept.withUpstream session upstream).ended done
  · obtain ⟨written, _, rest⟩ := exists_ok_of_bind done
    obtain rfl := Except.ok.inj rest
    apply Kept.start
    · exact Kept.same rfl rfl rfl rfl
    · exact List.mem_cons_self

theorem tunnelConnect_kept {course : ConnectCourse}
    (done : session.callback urls regex filters methodStr (.tunnelConnect course) = .ok next) :
    Kept session next (successors .tunnelConnect) := by
  obtain ⟨upstream, result, made, _⟩ := session.upstream.asyncConnect_mode course
  have connected := @Kept.withUpstream (successors .tunnelConnect) session upstream
  simp only [callback, made, bind, Except.bind] at done
  split at done
  · obtain ⟨response, _, rest⟩ := exists_ok_of_bind done
    exact connected.writeMessage rest List.mem_cons_self
  · obtain ⟨response, _, rest⟩ := exists_ok_of_bind done
    exact connected.writeMessage rest (List.mem_cons_of_mem _ List.mem_cons_self)

theorem pOnRequestCompleted_kept
    (closes : session.downstreamResponse.isConnectionKeepAlive = false)
    (done : Except.ok (session.pOnRequestCompleted operation) = (.ok next : Except Fault Session)) :
    Kept session next started := by
  rw [pOnRequestCompleted, closes, Bool.and_false, if_neg Bool.false_ne_true] at done
  exact (Kept.refl session).ended done

/-- The callbacks that leave the request alone start what is listed for them.  A
response that closes the connection is the last one. -/
theorem callback_kept {completion : Completion}
    (later : completion.operation ≠ .firstRead ∧ completion.operation ≠ .httpRead ∧
      ∀ request, completion ≠ .httpsRead (.ok request))
    (closes : completion.operation = .httpWrite ∨ completion.operation = .httpsWrite →
      session.downstreamResponse.isConnectionKeepAlive = false)
    (done : session.callback urls regex filters methodStr completion = .ok next) :
    Kept session next (successors completion.operation) := by
  have same := @Kept.refl (successors completion.operation) session
  cases completion with
  | firstRead result => exact absurd rfl later.1
  | httpRead result => exact absurd rfl later.2.1
  | httpRoundtrip result =>
      cases result with
      | error err => exact same.ended done
      | ok response => exact respond_kept done List.mem_cons_self
  | httpsRoundtrip result =>
      cases result with
      | error err => exact same.ended done
      | ok response => exact respond_kept done List.mem_cons_self
  | httpWrite err | httpsWrite err =>
      simp only [callback] at done
      split at done
      · exact same.ended done
      · exact pOnRequestCompleted_kept (closes (by simp [Completion.operation])) done
  | httpsConnect course => exact httpsConnect_kept done
  | httpsHandshake err => exact httpsHandshake_kept done
  | httpsConnected err => exact httpsConnected_kept done
  | httpsServerHandshake err => exact httpsServerHandshake_kept done
  | httpsRead result =>
      cases result with
      | error err => exact same.ended done
      | ok request => exact absurd rfl (later.2.2 request)
  | httpsReconnect course => exact httpsReconnect_kept done
  | tunnelConnect course => exact tunnelConnect_kept done
  | tunnelConnected err =>
      simp only [callback] at done
      split at done
      · exact same.ended done
      · obtain rfl := Except.ok.inj done
        exact same.start List.mem_cons_self
  | httpsBadGateway err | tunnelBadGateway err | tunnel err => exact same.ended done

/-- The connection that is opened for a request is to the server of the session. -/
theorem httpsRead_opened {request : MessageBase}
    (done : session.callback urls regex filters methodStr (.httpsRead (.ok request)) = .ok next) :
    next.upstream.scheme = session.upstreamScheme ∧ next.upstream.server = session.upstreamHost ∧
      next.outstanding = session.outstanding ++ [.httpsReconnect] := by
  obtain ⟨client, secured, rest⟩ := exists_ok_of_bind done
  obtain rfl := Except.ok.inj rest
  have same := Connection.becomeSecureClient_server secured
  exact ⟨same.1, same.2, rfl⟩

end Session

namespace Collecting

variable {urls : UrlParser} {regex : Bytes → Option (Bytes → Bool)}
  {filters : List Bytes} {methodStr : HttpMethod → Bytes}
  {collecting next : Collecting} {completion : Completion} {completions : List Completion}
  {scheme host : Bytes}

/-- The members for the collector only observe the session. -/
theorem step_session (done : collecting.step urls regex filters methodStr completion = .ok next) :
    collecting.session.step urls regex filters methodStr completion = .ok next.session := by
  obtain ⟨session, stepped, rest⟩ := exists_ok_of_bind done
  obtain ⟨named, _, rest⟩ := exists_ok_of_bind rest
  obtain ⟨effects, _, rest⟩ := exists_ok_of_bind rest
  obtain rfl := Except.ok.inj rest
  exact stepped

theorem step_later (later : completion.operation ≠ .firstRead)
    (done : collecting.step urls regex filters methodStr completion = .ok next) :
    ∃ effects, collecting.handled completion = .ok effects ∧
      next = { collecting with session := next.session, effects := collecting.effects ++ effects } := by
  obtain ⟨session, _, naming⟩ := exists_ok_of_bind done
  obtain ⟨named, same, handling⟩ := exists_ok_of_bind naming
  obtain ⟨effects, handled, made⟩ := exists_ok_of_bind handling
  obtain rfl : named = collecting := by
    cases completion with
    | firstRead result => exact absurd rfl later
    | _ => exact (Except.ok.inj same).symm
  obtain rfl := Except.ok.inj made
  exact ⟨effects, handled, rfl⟩

/-- What is known while an operation is in progress. -/
def Expected (collecting : Collecting) (scheme host : Bytes) : Operation → Prop
  | .firstRead | .httpRead => False
  | .httpsConnect | .httpsHandshake | .httpsConnected | .httpsServerHandshake | .httpsRead =>
      collecting.effects = [] ∧ collecting.session.upstreamScheme = scheme ∧
        collecting.session.upstreamHost = host
  | .httpsReconnect =>
      collecting.effects = [] ∧ collecting.session.upstream.scheme = scheme ∧
        collecting.session.upstream.server = host
  | .httpRoundtrip | .httpsRoundtrip =>
      ∃ port, collecting.effects = [.forward scheme host port collecting.session.downstreamRequest]
  | _ => True

/-- What is known after the first request, which named a scheme and a host. -/
structure Tracked (scheme host : Bytes) (completions : List Completion) (collecting : Collecting) :
    Prop where
  sound : collecting.session.Sound (fun _ => True)
  names : collecting.scheme = scheme ∧ collecting.host = host
  delegate : ∃ port, collecting.delegate = .new scheme host port
  expected : ∀ operation ∈ collecting.session.outstanding, collecting.Expected scheme host operation
  quiet : (∀ response, .httpRoundtrip (.ok response) ∉ completions) →
    CollectedAsSent scheme host collecting.effects
  plain : ∀ response, .httpRoundtrip (.ok response) ∈ completions →
    ∃ port request answer, collecting.effects =
      [.forward scheme host port request, .collect [] [] request answer, .respond answer]

/-- A callback that does nothing with an exchange. -/
theorem Tracked.silent (tracked : Tracked scheme host completions collecting)
    (unrelated : ∀ response, completion ≠ .httpRoundtrip (.ok response)) {session : Session}
    (sound : session.Sound (fun _ => True))
    (expected : ∀ operation ∈ session.outstanding,
      { collecting with session }.Expected scheme host operation) :
    Tracked scheme host (completions ++ [completion])
      { collecting with session, effects := collecting.effects ++ [] } := by
  rw [List.append_nil]
  refine ⟨sound, tracked.names, tracked.delegate, expected, fun none => ?_, fun response some => ?_⟩
  · exact tracked.quiet fun response member => none response (List.mem_append_left _ member)
  · rcases List.mem_append.mp some with old | new
    · exact tracked.plain response old
    · exact absurd (List.mem_singleton.mp new).symm (unrelated response)

/-- A forwarded request has not been answered by `MitmHttp`. -/
theorem Tracked.unanswered (tracked : Tracked scheme host completions collecting)
    (few : collecting.effects.length ≤ 1)
    (unrelated : ∀ response, completion ≠ .httpRoundtrip (.ok response)) (response : MessageBase) :
    .httpRoundtrip (.ok response) ∉ completions ++ [completion] := by
  intro member
  rcases List.mem_append.mp member with old | new
  · obtain ⟨port, request, answer, shape⟩ := tracked.plain response old
    rw [shape, List.length_cons, List.length_cons, List.length_singleton] at few
    omega
  · exact absurd (List.mem_singleton.mp new).symm (unrelated response)

theorem Expected.kept {operation begun : Operation} {session next : Session}
    (expected : { collecting with session }.Expected scheme host operation)
    (kept : session.Kept next (Session.successors operation))
    (other : operation ≠ .httpsReconnect) (listed : begun ∈ Session.successors operation) :
    { collecting with session := next }.Expected scheme host begun := by
  cases operation with
  | httpsReconnect => exact absurd rfl other
  | httpsConnect =>
      simp only [Session.successors, List.mem_cons, List.not_mem_nil, or_false] at listed
      rcases listed with rfl | rfl
      · trivial
      · exact ⟨expected.1, kept.scheme.trans expected.2.1, kept.host.trans expected.2.2⟩
  | httpsHandshake | httpsConnected | httpsServerHandshake =>
      obtain rfl := List.mem_singleton.mp listed
      exact ⟨expected.1, kept.scheme.trans expected.2.1, kept.host.trans expected.2.2⟩
  | tunnelConnect =>
      simp only [Session.successors, List.mem_cons, List.not_mem_nil, or_false] at listed
      rcases listed with rfl | rfl
      · trivial
      · trivial
  | httpRoundtrip | httpsRoundtrip | tunnelConnected =>
      obtain rfl := List.mem_singleton.mp listed
      trivial
  | _ => cases listed

section Step

variable (tracked : Tracked scheme host completions collecting)
  (enabled : collecting.Enabled completion)
  (done : collecting.step urls regex filters methodStr completion = .ok next)

include tracked enabled done

theorem Tracked.next_sound : next.session.Sound (fun _ => True) :=
  (Session.step_advanced tracked.sound enabled (fun _ _ => trivial) (step_session done)).1

theorem Tracked.next_kept (other : ∀ request, completion ≠ .httpsRead (.ok request)) :
    (collecting.session.ending completion).Kept next.session
        (Session.successors completion.operation) ∧
      ∀ operation ∈ next.session.outstanding, operation ∈ Session.successors completion.operation := by
  have expected := tracked.expected completion.operation enabled
  obtain ⟨between, during, _⟩ := tracked.sound.ending enabled
  have kept : (collecting.session.ending completion).Kept next.session
      (Session.successors completion.operation) := by
    refine Session.callback_kept ⟨fun same => ?_, fun same => ?_, other⟩ (fun writing => ?_)
      (step_session done)
    · rw [same] at expected
      exact expected
    · rw [same] at expected
      exact expected
    · rcases writing with same | same
      · rw [same] at during
        exact during
      · rw [same] at during
        exact during
  refine ⟨kept, fun operation member => (kept.outstanding operation member).resolve_left ?_⟩
  rw [between.idle]
  exact List.not_mem_nil

/-- A callback that neither forwards a request nor has a response. -/
theorem Tracked.passed (nothing : collecting.handled completion = .ok [])
    (other : ∀ request, completion ≠ .httpsRead (.ok request))
    (unconnected : completion.operation ≠ .httpsReconnect)
    (unrelated : ∀ response, completion ≠ .httpRoundtrip (.ok response)) :
    Tracked scheme host (completions ++ [completion]) next := by
  have expected := tracked.expected completion.operation enabled
  obtain ⟨kept, started⟩ := tracked.next_kept enabled done other
  have later : completion.operation ≠ .firstRead := fun same => by
    rw [same] at expected
    exact expected
  obtain ⟨effects, handled, made⟩ := step_later later done
  obtain rfl := Except.ok.inj (nothing.symm.trans handled)
  rw [made]
  apply tracked.silent unrelated (tracked.next_sound enabled done)
  intro operation member
  have before : { collecting with session := collecting.session.ending completion }.Expected scheme
      host completion.operation := by
    cases completion <;> exact expected
  exact before.kept kept unconnected (started operation member)

end Step

theorem Tracked.httpRoundtrip {response : MessageBase}
    (tracked : Tracked scheme host completions collecting)
    (enabled : collecting.Enabled (.httpRoundtrip (.ok response)))
    (done : collecting.step urls regex filters methodStr (.httpRoundtrip (.ok response)) = .ok next) :
    Tracked scheme host (completions ++ [.httpRoundtrip (.ok response)]) next := by
  obtain ⟨port, sent⟩ := tracked.expected _ enabled
  obtain ⟨_, started⟩ := tracked.next_kept enabled done (fun _ => Completion.noConfusion)
  obtain ⟨_, delegate⟩ := tracked.delegate
  obtain ⟨effects, handled, made⟩ := step_later Operation.noConfusion done
  obtain rfl := Except.ok.inj handled
  have sound := tracked.next_sound enabled done
  rw [made, MitmHttp.responds, delegate, sent]
  refine ⟨sound, tracked.names, ⟨_, rfl⟩, fun operation member => ?_,
    fun none => ?_, fun _ _ => ⟨_, _, _, rfl⟩⟩
  · obtain rfl := List.mem_singleton.mp (started operation member)
    trivial
  · exact absurd (List.mem_append_right _ List.mem_cons_self) (none response)

theorem Tracked.httpsRoundtrip {response : MessageBase}
    (tracked : Tracked scheme host completions collecting)
    (enabled : collecting.Enabled (.httpsRoundtrip (.ok response)))
    (done : collecting.step urls regex filters methodStr (.httpsRoundtrip (.ok response)) = .ok next) :
    Tracked scheme host (completions ++ [.httpsRoundtrip (.ok response)]) next := by
  obtain ⟨port, sent⟩ := tracked.expected _ enabled
  obtain ⟨_, started⟩ := tracked.next_kept enabled done (fun _ => Completion.noConfusion)
  obtain ⟨_, delegate⟩ := tracked.delegate
  obtain ⟨effects, handled, made⟩ := step_later Operation.noConfusion done
  obtain rfl := Except.ok.inj handled
  have sound := tracked.next_sound enabled done
  have few : collecting.effects.length ≤ 1 := by simp [sent]
  rw [made, MitmHttps.responds, delegate, sent]
  refine ⟨sound, tracked.names, ⟨_, rfl⟩, fun operation member => ?_,
    fun _ => ⟨⟨rfl, rfl⟩, ⟨rfl, rfl⟩, rfl, rfl, trivial⟩,
    fun answer member => ?_⟩
  · obtain rfl := List.mem_singleton.mp (started operation member)
    trivial
  · exact absurd member (tracked.unanswered few (fun _ => Completion.noConfusion) answer)

theorem Tracked.httpsReconnect {course : ConnectCourse}
    (tracked : Tracked scheme host completions collecting)
    (enabled : collecting.Enabled (.httpsReconnect course))
    (done : collecting.step urls regex filters methodStr (.httpsReconnect course) = .ok next) :
    Tracked scheme host (completions ++ [.httpsReconnect course]) next := by
  obtain ⟨unsent, target, server⟩ := tracked.expected _ enabled
  obtain ⟨kept, started⟩ := tracked.next_kept enabled done (fun _ => Completion.noConfusion)
  obtain ⟨between, _, _⟩ := tracked.sound.ending enabled
  obtain ⟨effects, handled, made⟩ := step_later Operation.noConfusion done
  obtain ⟨upstream, result, connected, _⟩ := collecting.session.upstream.asyncConnect_mode course
  have stepped := step_session done
  have sound := tracked.next_sound enabled done
  have few : collecting.effects.length ≤ 1 := by simp [unsent]
  simp only [Collecting.handled, connected, bind, Except.bind] at handled
  simp only [Session.step, Session.callback, connected, bind, Except.bind] at stepped
  by_cases fine : result = .ok
  · rw [if_neg (not_not.mpr fine)] at handled
    obtain rfl := Except.ok.inj handled
    obtain ⟨same, name⟩ := Connection.asyncConnect_server connected
    have request : next.session.downstreamRequest = collecting.session.downstreamRequest :=
      kept.request
    have shape : collecting.effects ++
        [MitmHttps.forwards upstream collecting.session.downstreamRequest] =
          [.forward scheme host upstream.port next.session.downstreamRequest] := by
      rw [unsent, MitmHttps.forwards, same, name, target, server, request]
      rfl
    rw [made, shape]
    refine ⟨sound, tracked.names, tracked.delegate, fun operation member => ?_,
      fun _ => ⟨rfl, rfl⟩, fun answer member => ?_⟩
    · obtain rfl := List.mem_singleton.mp (started operation member)
      exact ⟨upstream.port, rfl⟩
    · exact absurd member (tracked.unanswered few (fun _ => Completion.noConfusion) answer)
  · rw [if_pos fine] at handled stepped
    obtain rfl := Except.ok.inj handled
    have ended : next.session.outstanding = [] := by
      rw [← Except.ok.inj stepped]
      exact between.idle
    rw [made]
    apply tracked.silent (fun _ => Completion.noConfusion) sound
    intro operation member
    rw [ended] at member
    cases member

theorem Tracked.httpsRead {request : MessageBase}
    (tracked : Tracked scheme host completions collecting)
    (enabled : collecting.Enabled (.httpsRead (.ok request)))
    (done : collecting.step urls regex filters methodStr (.httpsRead (.ok request)) = .ok next) :
    Tracked scheme host (completions ++ [.httpsRead (.ok request)]) next := by
  obtain ⟨unsent, target, server⟩ := tracked.expected _ enabled
  obtain ⟨between, _, _⟩ := tracked.sound.ending enabled
  obtain ⟨effects, handled, made⟩ := step_later Operation.noConfusion done
  obtain rfl := Except.ok.inj handled
  obtain ⟨opened, name, started⟩ := Session.httpsRead_opened (step_session done)
  have sound := tracked.next_sound enabled done
  rw [made]
  apply tracked.silent (fun _ => Completion.noConfusion) sound
  intro operation member
  have idle : collecting.session.outstanding.erase .httpsRead = [] := between.idle
  have only : operation = .httpsReconnect := by
    simpa [started, Completion.operation, idle] using member
  subst only
  exact ⟨unsent, opened.trans target, name.trans server⟩

theorem Tracked.step (tracked : Tracked scheme host completions collecting)
    (enabled : collecting.Enabled completion)
    (done : collecting.step urls regex filters methodStr completion = .ok next) :
    Tracked scheme host (completions ++ [completion]) next := by
  cases completion with
  | firstRead result => exact (tracked.expected _ enabled).elim
  | httpRead result => exact (tracked.expected _ enabled).elim
  | httpsReconnect course => exact tracked.httpsReconnect enabled done
  | httpRoundtrip result =>
      cases result with
      | error err =>
          exact tracked.passed enabled done rfl (fun _ => Completion.noConfusion)
            Operation.noConfusion (fun _ same => by cases same)
      | ok response => exact tracked.httpRoundtrip enabled done
  | httpsRoundtrip result =>
      cases result with
      | error err =>
          exact tracked.passed enabled done rfl (fun _ => Completion.noConfusion)
            Operation.noConfusion (fun _ => Completion.noConfusion)
      | ok response => exact tracked.httpsRoundtrip enabled done
  | httpsRead result =>
      cases result with
      | error err =>
          exact tracked.passed enabled done rfl (fun _ same => by cases same)
            Operation.noConfusion (fun _ => Completion.noConfusion)
      | ok request => exact tracked.httpsRead enabled done
  | _ =>
      exact tracked.passed enabled done rfl (fun _ => Completion.noConfusion)
        Operation.noConfusion (fun _ => Completion.noConfusion)

/-! ## From the first request on -/

theorem pOnFirstMessage_cases {request : MessageBase} {action : MitmApp.Action}
    (chosen : MitmApp.pOnFirstMessage urls regex filters methodStr request = .ok action) :
    ∃ uri, Uri.ofText urls request.target = .ok uri ∧
      ((request.method = some .connect ∧ (action = .tunnel uri.scheme uri.server uri.port ∨
        action = .mitmHttps uri.scheme uri.server uri.port)) ∨
      (request.method ≠ some .connect ∧ ∃ written, action = .mitmHttp written)) := by
  obtain ⟨uri, made, rest⟩ := exists_ok_of_bind chosen
  refine ⟨uri, made, ?_⟩
  by_cases connect : request.method = some .connect
  · rw [if_pos connect] at rest
    obtain ⟨chosen, determined, last⟩ := exists_ok_of_bind rest
    obtain ⟨wanted, _, rest⟩ := exists_ok_of_bind determined
    cases wanted with
    | true =>
        obtain rfl := Except.ok.inj rest
        exact .inl ⟨connect, .inr (Except.ok.inj last).symm⟩
    | false =>
        obtain rfl := Except.ok.inj rest
        exact .inl ⟨connect, .inl (Except.ok.inj last).symm⟩
  · rw [if_neg connect] at rest
    obtain ⟨written, _, last⟩ := exists_ok_of_bind rest
    exact .inr ⟨connect, written, (Except.ok.inj last).symm⟩

theorem named_exists {session : Session}
    (stepped : collecting.session.step urls regex filters methodStr completion = .ok session) :
    ∃ named, collecting.named urls completion = .ok named := by
  cases completion with
  | firstRead result =>
      cases result with
      | error err => exact ⟨collecting, rfl⟩
      | ok request =>
          obtain ⟨action, chosen, _⟩ := exists_ok_of_bind stepped
          obtain ⟨uri, found, _⟩ := pOnFirstMessage_cases chosen
          simp only [named, found, bind, Except.bind]
          exact ⟨_, rfl⟩
  | _ => exact ⟨collecting, rfl⟩

theorem handled_exists (collecting : Collecting) (completion : Completion) :
    ∃ effects, collecting.handled completion = .ok effects := by
  unfold handled
  split
  · split
    · exact ⟨_, rfl⟩
    · exact ⟨_, rfl⟩
  · exact ⟨_, rfl⟩
  · exact ⟨_, rfl⟩
  · next course =>
      obtain ⟨upstream, result, connected, _⟩ := collecting.session.upstream.asyncConnect_mode course
      simp only [connected, bind, Except.bind]
      split
      · exact ⟨_, rfl⟩
      · exact ⟨_, rfl⟩
  · exact ⟨_, rfl⟩
  · exact ⟨_, rfl⟩

theorem step_exists {session : Session}
    (stepped : collecting.session.step urls regex filters methodStr completion = .ok session) :
    ∃ next, collecting.step urls regex filters methodStr completion = .ok next ∧
      next.session = session := by
  obtain ⟨named, same⟩ := named_exists stepped
  obtain ⟨effects, handled⟩ := named.handled_exists completion
  simp only [step, stepped, same, handled, bind, Except.bind]
  exact ⟨_, rfl, rfl⟩

theorem follow_watched {session : Session}
    (followed : completions.foldlM (Transition.attempt Transition.unguarded Session.Enabled
      (Session.step urls regex filters methodStr)) collecting.session = some session) :
    ∃ watched, completions.foldlM (Transition.attempt Transition.unguarded Enabled
      (step urls regex filters methodStr)) collecting = some watched ∧ watched.session = session := by
  induction completions generalizing collecting with
  | nil => exact ⟨collecting, rfl, Option.some.inj followed⟩
  | cons completion rest ih =>
      rw [List.foldlM_cons, Option.bind_eq_bind, Option.bind_eq_some_iff] at followed
      obtain ⟨middle, attempted, later⟩ := followed
      obtain ⟨allowed, stepped⟩ := Transition.attempt_eq_some.mp attempted
      obtain ⟨next, watched, same⟩ := step_exists stepped
      subst same
      obtain ⟨final, watching, ended⟩ := ih later
      refine ⟨final, ?_, ended⟩
      rw [List.foldlM_cons, Option.bind_eq_bind, Option.bind_eq_some_iff]
      exact ⟨next, Transition.attempt_eq_some.mpr ⟨allowed, watched⟩, watching⟩

/-- Every run of a session is one of the session that is watched. -/
theorem runs_watched {downstream : Connection} {session : Session}
    (followed : completions.foldlM (Transition.attempt Transition.unguarded Session.Enabled
      (Session.step urls regex filters methodStr)) (Session.handle downstream) = some session) :
    ∃ collecting, after urls regex filters methodStr downstream completions = some collecting ∧
      collecting.session = session :=
  @follow_watched urls regex filters methodStr (handle downstream) completions session followed

theorem firstRead_tracked {request : MessageBase} {scheme server port : Bytes}
    (done : (handle (.ofServer scheme server port)).step urls regex filters methodStr
      (.firstRead (.ok request)) = .ok next) :
    ∃ uri, Uri.ofText urls request.target = .ok uri ∧
      Tracked uri.scheme uri.server [.firstRead (.ok request)] next := by
  have begun : (Session.handle (.ofServer scheme server port)).Sound (fun _ => True) :=
    Session.reaches_sound (fun _ _ _ => trivial) (@Transition.Reaches.initial _ _
      (Session.runs urls regex filters methodStr) Transition.unguarded _ ⟨_, _, _, rfl⟩)
  have sound : next.session.Sound (fun _ => True) :=
    (Session.step_advanced begun List.mem_cons_self (fun _ _ => trivial) (step_session done)).1
  obtain ⟨session, stepped, naming⟩ := exists_ok_of_bind done
  obtain ⟨named, same, handling⟩ := exists_ok_of_bind naming
  obtain ⟨effects, handled, made⟩ := exists_ok_of_bind handling
  obtain ⟨action, chosen, acted⟩ := exists_ok_of_bind stepped
  obtain ⟨uri, found, cases⟩ := pOnFirstMessage_cases chosen
  simp only [Collecting.named, found, bind, Except.bind, pure, Except.pure, Except.ok.injEq] at same
  subst same
  obtain rfl := Except.ok.inj made
  have unrelated (response : MessageBase) :
      .httpRoundtrip (.ok response) ∉ [Completion.firstRead (.ok request)] := fun member =>
    Completion.noConfusion (List.mem_singleton.mp member)
  refine ⟨uri, found, ?_⟩
  rcases cases with ⟨connect, rfl | rfl⟩ | ⟨plain, written, rfl⟩
  · obtain rfl := Except.ok.inj acted
    simp only [Collecting.handled, if_pos connect] at handled
    obtain rfl := Except.ok.inj handled
    refine ⟨sound, ⟨rfl, rfl⟩, ⟨_, rfl⟩, fun operation member => ?_, fun _ => trivial,
      fun response member => absurd member (unrelated response)⟩
    obtain rfl := List.mem_singleton.mp member
    trivial
  · obtain rfl := Except.ok.inj acted
    simp only [Collecting.handled, if_pos connect] at handled
    obtain rfl := Except.ok.inj handled
    refine ⟨sound, ⟨rfl, rfl⟩, ⟨_, rfl⟩, fun operation member => ?_, fun _ => trivial,
      fun response member => absurd member (unrelated response)⟩
    obtain rfl := List.mem_singleton.mp member
    exact ⟨rfl, rfl, rfl⟩
  · obtain rfl := Except.ok.inj acted
    simp only [Collecting.handled, if_neg plain] at handled
    obtain rfl := Except.ok.inj handled
    refine ⟨sound, ⟨rfl, rfl⟩, ⟨_, rfl⟩, fun operation member => ?_, fun _ => ⟨rfl, rfl⟩,
      fun response member => absurd member (unrelated response)⟩
    obtain rfl := List.mem_singleton.mp member
    exact ⟨_, rfl⟩

theorem Tracked.collectedAsSent_iff (tracked : Tracked scheme host completions collecting) :
    CollectedAsSent collecting.scheme collecting.host collecting.effects ↔
      (∀ response, .httpRoundtrip (.ok response) ∉ completions) ∨ (scheme = [] ∧ host = []) := by
  rw [tracked.names.1, tracked.names.2]
  by_cases none : ∀ response, .httpRoundtrip (.ok response) ∉ completions
  · exact iff_of_true (tracked.quiet none) (.inl none)
  · obtain ⟨response, member⟩ := not_forall_not.mp none
    obtain ⟨port, request, answer, shape⟩ := tracked.plain response member
    rw [shape]
    constructor
    · intro collected
      obtain ⟨_, ⟨seen, name⟩, _⟩ := collected
      exact .inr ⟨seen.symm, name.symm⟩
    · intro spared
      obtain ⟨rfl, rfl⟩ := spared.resolve_left none
      exact ⟨⟨rfl, rfl⟩, ⟨rfl, rfl⟩, rfl, rfl, trivial⟩

theorem ended_final (ended : collecting.session.outstanding = []) {final : Collecting}
    (followed : completions.foldlM (Transition.attempt Transition.unguarded Enabled
      (step urls regex filters methodStr)) collecting = some final) :
    completions = [] ∧ final = collecting := by
  cases completions with
  | nil => exact ⟨rfl, (Option.some.inj followed).symm⟩
  | cons first rest =>
      rw [List.foldlM_cons, Option.bind_eq_bind, Option.bind_eq_some_iff] at followed
      obtain ⟨next, started, _⟩ := followed
      obtain ⟨⟨_, enabled⟩, _⟩ := Transition.attempt_eq_some.mp started
      rw [Enabled, Session.Enabled, ended] at enabled
      cases enabled

/-- The collector is told of every exchange once, before its response is written,
and with the scheme and host of its request, exactly when `MitmHttp` gets no
response or the first request has neither.  By `runs_watched` this is about every
run of a session. -/
theorem collected_as_sent_iff (urls : UrlParser) (regex : Bytes → Option (Bytes → Bool))
    (filters : List Bytes) (methodStr : HttpMethod → Bytes) (scheme server port : Bytes)
    (completions : List Completion) (collecting : Collecting)
    (followed : after urls regex filters methodStr (.ofServer scheme server port) completions =
      some collecting) :
    CollectedAsSent collecting.scheme collecting.host collecting.effects ↔
      Spared urls completions := by
  cases completions with
  | nil =>
      obtain rfl := Option.some.inj followed
      exact iff_of_true trivial (.inl fun _ => List.not_mem_nil)
  | cons first rest =>
      rw [after, List.foldlM_cons, Option.bind_eq_bind, Option.bind_eq_some_iff] at followed
      obtain ⟨begun, started, later⟩ := followed
      obtain ⟨⟨_, enabled⟩, stepped⟩ := Transition.attempt_eq_some.mp started
      have reading : first.operation = .firstRead := List.mem_singleton.mp enabled
      cases first with
      | firstRead result =>
          cases result with
          | error err =>
              obtain rfl := Except.ok.inj stepped
              obtain ⟨rfl, rfl⟩ := ended_final rfl later
              refine iff_of_true trivial (.inl fun response member => ?_)
              exact Completion.noConfusion (List.mem_singleton.mp member)
          | ok request =>
              obtain ⟨uri, found, tracked⟩ := firstRead_tracked stepped
              have final := Transition.follow_invariant
                (fun held enabled done => Tracked.step held enabled done) tracked later
              rw [final.collectedAsSent_iff]
              apply or_congr_right
              constructor
              · intro empty
                exact ⟨request, rest, uri, rfl, found, empty⟩
              · intro empty
                obtain ⟨other, _, name, same, given, empty⟩ := empty
                cases same
                obtain rfl := Except.ok.inj (found.symm.trans given)
                exact empty
      | _ => cases reading

def fetching : List Completion :=
  [.firstRead (.ok (getRequest (ascii "http://h.x/"))), .httpRoundtrip (.ok emptyResponse)]

theorem captured_collected_as_sent :
    ∃ collecting, after .slicing CaptureFilter.plainRegex [ascii ".*"] (fun _ => ascii "GET")
        (.ofServer [] [] []) (Session.captured ++ [.httpsRoundtrip (.ok emptyResponse)]) =
          some collecting ∧
      collecting.effects.length = 3 ∧
      CollectedAsSent collecting.scheme collecting.host collecting.effects := by
  obtain ⟨collecting, followed, effects⟩ :
      ∃ collecting, after .slicing CaptureFilter.plainRegex [ascii ".*"] (fun _ => ascii "GET")
          (.ofServer [] [] []) (Session.captured ++ [.httpsRoundtrip (.ok emptyResponse)]) =
            some collecting ∧
        collecting.effects.length = 3 :=
    ⟨_, rfl, rfl⟩
  refine ⟨collecting, followed, effects, (collected_as_sent_iff .slicing
    CaptureFilter.plainRegex [ascii ".*"] (fun _ => ascii "GET") [] [] [] _ collecting
    followed).mpr (.inl fun response => ?_)⟩
  simp [Session.captured]

/-- A page fetched from `h.x` is collected without a host. -/
theorem fetched_collected_without_host :
    ∃ collecting, after .slicing CaptureFilter.plainRegex [ascii ".*"] (fun _ => ascii "GET")
        (.ofServer [] [] []) fetching = some collecting ∧ collecting.host = ascii "h.x" ∧
      ¬ CollectedAsSent collecting.scheme collecting.host collecting.effects := by
  refine ⟨_, rfl, rfl, fun collected => ?_⟩
  obtain ⟨_, ⟨seen, _⟩, _⟩ := collected
  cases seen

end Collecting

end Marvin.Server
