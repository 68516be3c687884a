import Marvin.Server.RequestHandler
import Marvin.Server.SessionEnd

namespace Marvin.Server

open Marvin.Data Marvin.Http Marvin.Message Marvin.Buffer Marvin.Collector

/-! # The proxy with all its connections

The server of `mitm_thread.hpp`, whose request handlers are `MitmApp`s.  They
share the list of filters, which the control application changes from its own
thread.  Each operation that a session starts completes once.
-/

variable (urls : UrlParser) (regex : Bytes → Option (Bytes → Bool))
  (methodStr : HttpMethod → Bytes)

def mitmApp : RequestHandler (List Bytes) Session Completion where
  handle := .handle (.ofServer [] [] [])
  Enabled := Session.Enabled
  callback filters session completion := do
    let session ← session.step urls regex filters methodStr completion
    return (filters, session)
  done := Session.doneCallbacks
  outside _ _ := True

abbrev Proxying := Serving (List Bytes) Session

/-- What is read and answered passes the checks with the filters there are then,
whatever the session. -/
def Passing (filters : List Bytes) (completion : Completion) : Prop :=
  ∀ session : Session, session.Passes urls regex filters completion

variable {urls regex methodStr} {pledge : MessageBase → Prop} {proxy : Proxying}

theorem handle_sound : (Session.handle (.ofServer [] [] [])).Sound pledge := by
  refine ⟨.inr ⟨.firstRead, rfl, rfl, rfl, rfl⟩, Nat.zero_le _, fun sent member => ?_⟩
  cases member

theorem mitmApp_callback {filters next : List Bytes} {before after : Session}
    {completion : Completion}
    (called : (mitmApp urls regex methodStr).callback filters before completion =
      .ok (next, after)) :
    before.step urls regex filters methodStr completion = .ok after := by
  obtain ⟨session, stepped, rest⟩ := exists_ok_of_bind called
  cases rest
  exact stepped

/-- A session posts its done callback once, when no operation is in progress. -/
theorem mitmApp_settles {guard : List Bytes → Completion → Prop}
    (promised : ∀ filters request, guard filters (.httpsRead (.ok request)) → pledge request) :
    (mitmApp urls regex methodStr).Settles guard (Session.Sound pledge) where
  begins := ⟨handle_sound, rfl⟩
  keeps := by
    intro context next before after completion sound enabled guarded called
    refine (Session.step_advanced sound enabled (fun request same => ?_) (mitmApp_callback called)).1
    exact promised context request (same ▸ guarded)
  once := by
    intro session sound
    rcases sound.course with ⟨idle, posted⟩ | ⟨operation, only, pending, _⟩
    · refine .inr ⟨posted, fun completion enabled => ?_⟩
      have member : completion.operation ∈ session.outstanding := enabled
      rw [idle] at member
      cases member
    · exact .inl pending

theorem mitmApp_ranked {guard : List Bytes → Completion → Prop}
    (promised : ∀ filters request, guard filters (.httpsRead (.ok request)) → pledge request) :
    Serving.Ranked (mitmApp urls regex methodStr) guard (Session.Sound pledge)
      (fun _ callbacks => callbacks) Session.rank 9 where
  begins := Nat.le_refl 9
  lowers := by
    intro context next before after completion sound enabled guarded called callbacks
    have lower : after.rank < before.rank :=
      (Session.step_advanced sound enabled (fun request same =>
        promised context request (same ▸ guarded))
        (mitmApp_callback called)).2
    omega
  outside _ callbacks := Nat.le_refl callbacks

/-- Over every interleaving of accepts, callbacks, done callbacks and changes of
the filters, the server is orderly: each connection has one operation in progress
or a posted done callback, and never both, so no callback is left for a handler
that is destroyed and each handler is destroyed once. -/
theorem proxy_connections_orderly (urls : UrlParser) (regex : Bytes → Option (Bytes → Bool))
    (methodStr : HttpMethod → Bytes) {maxConnections : Nat} (positive : 1 ≤ maxConnections)
    {filters : List Bytes}
    (reached : (Serving.runs (mitmApp urls regex methodStr) maxConnections filters).Reaches
      Transition.unguarded proxy) :
    proxy.Orderly (mitmApp urls regex methodStr) maxConnections ∧
      ∀ handler, ∀ session ∈ KeyedList.lookup handler proxy.handlers,
        session.outstanding.length + proxy.done.count handler = 1 := by
  have settles : (mitmApp urls regex methodStr).Settles (fun _ _ => True)
      (Session.Sound fun _ => True) := mitmApp_settles fun _ _ _ => trivial
  obtain ⟨kept, rfl⟩ := Serving.reaches_kept settles (Serving.reaches_guarded reached)
  refine ⟨kept.orderly settles positive, fun handler session found => ?_⟩
  have member := KeyedList.mem_of_lookup found
  have counted : proxy.done.count handler = session.doneCallbacks := kept.posted _ member
  rw [counted]
  rcases (kept.good _ member).course with ⟨idle, posted⟩ | ⟨operation, only, pending, _⟩
  · rw [idle, posted]
    rfl
  · rw [only, pending]
    rfl

/-- A proxy with one connection whose client has gone away. -/
def abandoned : List (Serving.Input (List Bytes) Completion) :=
  [.server (.run .startAccept 0), .server (.connects 0 7), .outside [ascii ".*"],
    .server (.run (.accepted 0 (.connected 7)) 1),
    .server (.run (.handleAccept 0 (.connected 7)) 1), .callback ⟨0, 7⟩ (.firstRead (.error .eof))]

instance : DecidablePred ((mitmApp urls regex methodStr).outside filters) :=
  fun _ => .isTrue trivial

instance (session : Session) : DecidablePred ((mitmApp urls regex methodStr).Enabled session) :=
  inferInstanceAs (DecidablePred session.Enabled)

theorem abandoned_reached :
    ∃ proxy : Proxying,
      (Serving.runs (mitmApp .slicing CaptureFilter.plainRegex (fun _ => ascii "GET")) 2 []).Reaches
        Transition.unguarded proxy ∧
      KeyedList.keys proxy.handlers = [⟨0, 7⟩] ∧ proxy.done = [⟨0, 7⟩] := by
  obtain ⟨proxy, followed, handlers, done⟩ :
      ∃ proxy : Proxying, abandoned.foldlM (Transition.attempt Transition.unguarded
          (Serving.Enabled (mitmApp .slicing CaptureFilter.plainRegex (fun _ => ascii "GET")))
          (Serving.step (mitmApp .slicing CaptureFilter.plainRegex (fun _ => ascii "GET"))))
            (Serving.listen 2 []) = some proxy ∧
        KeyedList.keys proxy.handlers = [⟨0, 7⟩] ∧ proxy.done = [⟨0, 7⟩] := ⟨_, rfl, rfl, rfl⟩
  exact ⟨proxy, Transition.ofStep_follow (.initial rfl) followed, handlers, done⟩

theorem abandoned_connection_orderly :
    ∃ proxy : Proxying, proxy.done = [⟨0, 7⟩] ∧
      proxy.Orderly (mitmApp .slicing CaptureFilter.plainRegex (fun _ => ascii "GET")) 2 ∧
      ∀ handler, ∀ session ∈ KeyedList.lookup handler proxy.handlers,
        session.outstanding.length + proxy.done.count handler = 1 := by
  obtain ⟨proxy, reached, _, done⟩ := abandoned_reached
  exact ⟨proxy, done, proxy_connections_orderly .slicing _ _ (by decide) reached⟩

/-- An operation can end in an error. -/
theorem exists_completion (urls : UrlParser) (regex : Bytes → Option (Bytes → Bool))
    (filters : List Bytes) (operation : Operation) :
    ∃ completion, Passing urls regex filters completion ∧ completion.operation = operation := by
  cases operation with
  | firstRead => exact ⟨.firstRead (.error .eof), fun _ => trivial, rfl⟩
  | httpRoundtrip => exact ⟨.httpRoundtrip (.error .eof), fun _ => trivial, rfl⟩
  | httpWrite => exact ⟨.httpWrite .eof, fun _ => trivial, rfl⟩
  | httpRead => exact ⟨.httpRead (.error .eof), fun _ => trivial, rfl⟩
  | httpsConnect => exact ⟨.httpsConnect ⟨.eof, [], .ok⟩, fun _ => trivial, rfl⟩
  | httpsBadGateway => exact ⟨.httpsBadGateway .eof, fun _ => trivial, rfl⟩
  | httpsHandshake => exact ⟨.httpsHandshake .eof, fun _ => trivial, rfl⟩
  | httpsConnected => exact ⟨.httpsConnected .eof, fun _ => trivial, rfl⟩
  | httpsServerHandshake => exact ⟨.httpsServerHandshake .eof, fun _ => trivial, rfl⟩
  | httpsRead => exact ⟨.httpsRead (.error .eof), fun _ => trivial, rfl⟩
  | httpsReconnect => exact ⟨.httpsReconnect ⟨.eof, [], .ok⟩, fun _ => trivial, rfl⟩
  | httpsRoundtrip => exact ⟨.httpsRoundtrip (.error .eof), fun _ => trivial, rfl⟩
  | httpsWrite => exact ⟨.httpsWrite .eof, fun _ => trivial, rfl⟩
  | tunnelConnect => exact ⟨.tunnelConnect ⟨.eof, [], .ok⟩, fun _ => trivial, rfl⟩
  | tunnelBadGateway => exact ⟨.tunnelBadGateway .eof, fun _ => trivial, rfl⟩
  | tunnelConnected => exact ⟨.tunnelConnected .eof, fun _ => trivial, rfl⟩
  | tunnel => exact ⟨.tunnel .eof, fun _ => trivial, rfl⟩

/-- Where the requests pass their checks no callback fails, a connection takes at
most nine of them, and until it has ended one more or its done callback is to come.
A `CONNECT` is checked against the filters there are when it is read. -/
theorem proxy_callbacks_bounded (urls : UrlParser) (regex : Bytes → Option (Bytes → Bool))
    {methodStr : HttpMethod → Bytes} (named : ∀ method, (methodStr method).length ≤ 32)
    {maxConnections : Nat} {filters : List Bytes}
    (reached : (Serving.runs (mitmApp urls regex methodStr) maxConnections filters).Reaches
      (Serving.Guarded (Passing urls regex)) proxy) :
    proxy.callbacks ≤ 9 * proxy.server.registered.length ∧
      (∀ handler completion,
        proxy.Enabled (mitmApp urls regex methodStr) (.callback handler completion) →
        Passing urls regex proxy.context completion →
        ∃ next, proxy.step (mitmApp urls regex methodStr) (.callback handler completion) =
          .ok next) ∧
      (proxy.server.stopped = false → ∀ handler ∈ KeyedList.keys proxy.handlers,
        proxy.Enabled (mitmApp urls regex methodStr) (.done handler) ∨
          ∃ completion, Passing urls regex proxy.context completion ∧
            proxy.Enabled (mitmApp urls regex methodStr) (.callback handler completion)) := by
  have promised : ∀ filters request, Passing urls regex filters (.httpsRead (.ok request)) →
      Session.Hosted request :=
    fun _ _ passing => passing (.handle (.ofServer [] [] []))
  have settles : (mitmApp urls regex methodStr).Settles (Passing urls regex)
      (Session.Sound Session.Hosted) := mitmApp_settles promised
  obtain ⟨kept, _⟩ := Serving.reaches_kept settles reached
  have bounded := Serving.reaches_bounded settles (mitmApp_ranked promised) rfl reached
  refine ⟨Nat.le_trans (Nat.le_add_right _ _) bounded, ?_, ?_⟩
  · intro handler completion enabled passing
    obtain ⟨_, session, found, ready⟩ := enabled
    have sound := kept.good _ (KeyedList.mem_of_lookup found)
    obtain ⟨_, during, _⟩ := sound.ending ready
    obtain ⟨after, stepped⟩ : ∃ after,
        session.step urls regex proxy.context methodStr completion = .ok after :=
      Session.callback_exists named during (passing _)
    simp only [Serving.step, Serving.callback, Option.mem_def.mp found, mitmApp, stepped, bind,
      Except.bind, pure, Except.pure]
    exact ⟨_, rfl⟩
  · intro running handler listed
    obtain ⟨session, found⟩ := Option.ne_none_iff_exists'.mp
      (fun missing => KeyedList.lookup_eq_none.mp missing listed)
    have member := KeyedList.mem_of_lookup found
    rcases (kept.good _ member).course with ⟨_, posted⟩ | ⟨operation, only, _, _⟩
    · refine .inl ⟨running, List.count_pos_iff.mp ?_⟩
      rw [kept.posted _ member]
      exact Nat.lt_of_lt_of_eq Nat.zero_lt_one posted.symm
    · obtain ⟨completion, passing, same⟩ := exists_completion urls regex proxy.context operation
      refine .inr ⟨completion, passing, running, session, found, ?_⟩
      change completion.operation ∈ session.outstanding
      rw [same, only]
      exact List.mem_singleton_self operation

/-- A proxy that has fetched a page for its only client, with a filter that is not a
valid expression. -/
def fetching : List (Serving.Input (List Bytes) Completion) :=
  [.server (.run .startAccept 0), .server (.connects 0 7), .outside [ascii "("],
    .server (.run (.accepted 0 (.connected 7)) 1),
    .server (.run (.handleAccept 0 (.connected 7)) 1)] ++
  Session.fetched.map (.callback ⟨0, 7⟩)

theorem fetching_passing (proxy : Proxying) :
    ∀ input ∈ fetching, proxy.Guarded (Passing .slicing CaptureFilter.plainRegex) input := by
  intro input member
  rcases List.mem_append.mp member with server | callback
  · simp only [List.mem_cons, List.not_mem_nil, or_false] at server
    rcases server with rfl | rfl | rfl | rfl | rfl <;> trivial
  · obtain ⟨completion, listed, rfl⟩ := List.mem_map.mp callback
    exact fun session => Session.fetched_passes _ _ session completion listed

theorem fetching_callbacks_bounded :
    ∃ proxy : Proxying, proxy.callbacks = 3 ∧ proxy.server.registered.length = 1 ∧
      proxy.callbacks ≤ 9 * proxy.server.registered.length := by
  obtain ⟨proxy, followed, callbacks, registered⟩ :
      ∃ proxy : Proxying, fetching.foldlM (Transition.attempt Transition.unguarded
          (Serving.Enabled (mitmApp .slicing CaptureFilter.plainRegex (fun _ => ascii "GET")))
          (Serving.step (mitmApp .slicing CaptureFilter.plainRegex (fun _ => ascii "GET"))))
            (Serving.listen 2 []) = some proxy ∧
        proxy.callbacks = 3 ∧ proxy.server.registered.length = 1 := ⟨_, rfl, rfl, rfl⟩
  have reached : (Serving.runs (mitmApp .slicing CaptureFilter.plainRegex (fun _ => ascii "GET")) 2
      []).Reaches (Serving.Guarded (Passing .slicing CaptureFilter.plainRegex)) proxy :=
    Transition.ofStep_follow_allowed fetching_passing (.initial rfl) followed
  exact ⟨proxy, callbacks, registered, (proxy_callbacks_bounded .slicing _
    (fun _ => show (ascii "GET").length ≤ 32 by decide) reached).1⟩

end Marvin.Server
