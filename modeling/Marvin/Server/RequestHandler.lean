import Mathlib.Algebra.Order.BigOperators.Group.List
import Mathlib.Algebra.Order.Group.Nat
import Marvin.Data.History
import Marvin.Server.Accepting

namespace Marvin.Server

open Marvin.Data

/-! # The server with its request handlers

`marvin/server/tcp_server.cpp` and `connection_handler.cpp` together with any
implementation of `request_handler_interface.hpp`.  The server registers a
`ConnectionHandler` for each connection and calls `serve`, which passes the
request handler a callback to be called when it is done; that callback
deregisters the connection handler, and both are destroyed.
-/

/-- A request handler as the server sees it.  Callbacks of different connections
work on what the handlers share. -/
structure RequestHandler (γ σ ι : Type) where
  /-- The handler once `handle` has returned. -/
  handle : σ
  Enabled : σ → ι → Prop
  callback : γ → σ → ι → Except Fault (γ × σ)
  /-- How often the callback that `serve` passed was posted or called.  One that is
  called runs at once, which is one of the orders in which it could run. -/
  done : σ → Nat
  /-- What other threads do to what the handlers share. -/
  outside : γ → γ → Prop

def TcpServer.Input.isDone : TcpServer.Input → Bool
  | .done _ => true
  | _ => false

structure Serving (γ σ : Type) where
  server : TcpServer
  context : γ
  /-- The request handlers of the connection handlers that exist. -/
  handlers : List (Entry ConnectionHandler σ)
  /-- The done callbacks that are posted. -/
  done : List ConnectionHandler
  /-- The connection handlers that were deregistered. -/
  ended : List ConnectionHandler
  /-- How many callbacks of request handlers were run. -/
  callbacks : Nat

namespace Serving

variable {γ σ ι : Type} (app : RequestHandler γ σ ι)

inductive Input (γ ι : Type) where
  | server (input : TcpServer.Input)
  | callback (handler : ConnectionHandler) (completion : ι)
  | done (handler : ConnectionHandler)
  | outside (context : γ)

/-- The server learns from its handlers alone that they are done, and nothing runs
once the io_service is stopped. -/
def Enabled (serving : Serving γ σ) : Input γ ι → Prop
  | .server input => serving.server.Enabled input ∧ input.isDone = false
  | .callback handler completion =>
      serving.server.stopped = false ∧
        ∃ state ∈ KeyedList.lookup handler serving.handlers, app.Enabled state completion
  | .done handler => serving.server.stopped = false ∧ handler ∈ serving.done
  | .outside context => app.outside serving.context context

instance (serving : Serving γ σ) [∀ state, DecidablePred (app.Enabled state)]
    [∀ context, DecidablePred (app.outside context)] : DecidablePred (serving.Enabled app)
  | .server input =>
      inferInstanceAs (Decidable (serving.server.Enabled input ∧ input.isDone = false))
  | .callback handler completion => inferInstanceAs (Decidable (serving.server.stopped = false ∧
      ∃ state ∈ KeyedList.lookup handler serving.handlers, app.Enabled state completion))
  | .done handler =>
      inferInstanceAs (Decidable (serving.server.stopped = false ∧ handler ∈ serving.done))
  | .outside context => inferInstanceAs (Decidable (app.outside serving.context context))

/-- The handlers that `serve` is called for. -/
def served (before after : TcpServer) : List ConnectionHandler :=
  after.registered.drop before.registered.length

def callback (serving : Serving γ σ) (handler : ConnectionHandler) (completion : ι) :
    Except Fault (Serving γ σ) :=
  match KeyedList.lookup handler serving.handlers with
  | none => return serving
  | some before => do
      let (context, after) ← app.callback serving.context before completion
      return { serving with
        context
        handlers := KeyedList.put handler after serving.handlers
        done := serving.done ++ List.replicate (app.done after - app.done before) handler
        callbacks := serving.callbacks + 1 }

def step (serving : Serving γ σ) : Input γ ι → Except Fault (Serving γ σ)
  | .server input => do
      let server ← serving.server.step input
      return { serving with
        server
        handlers := serving.handlers ++
          (served serving.server server).map (fun handler => ⟨handler, app.handle⟩) }
  | .callback handler completion => serving.callback app handler completion
  | .done handler => do
      let server ← serving.server.done handler
      return { serving with
        server
        handlers := KeyedList.remove handler serving.handlers
        done := serving.done.erase handler
        ended := serving.ended ++ [handler] }
  | .outside context => return { serving with context }

def listen (maxConnections : Nat) (context : γ) : Serving γ σ :=
  ⟨.listen maxConnections, context, [], [], [], 0⟩

def runs (maxConnections : Nat) (context : γ) : Transition (Serving γ σ) (Input γ ι) :=
  .ofStep (· = listen maxConnections context) (Enabled app) (step app)

/-- The callbacks of request handlers are restricted, and nothing else. -/
def Guarded (guard : γ → ι → Prop) (serving : Serving γ σ) : Input γ ι → Prop
  | .callback _ completion => guard serving.context completion
  | _ => True

end Serving

/-! ## Registering and deregistering -/

namespace TcpServer

variable {server next : TcpServer}

theorem registerConnectionHandler_connections {manager after : ServerConnectionManager}
    {handler : ConnectionHandler} (registered : manager.registerConnectionHandler handler = .ok after) :
    after.connections = manager.connections ++ [handler] := by
  simp only [ServerConnectionManager.registerConnectionHandler] at registered
  split at registered
  · cases registered
  · split at registered
    · cases registered
    · cases registered
      rfl

theorem allowAnotherConnection_connections {manager after : ServerConnectionManager} {allowed : Bool}
    (asked : manager.allowAnotherConnection = .ok (after, allowed)) :
    after.connections = manager.connections := by
  simp only [ServerConnectionManager.allowAnotherConnection] at asked
  split at asked
  · cases asked
  · split at asked
    · cases asked
      rfl
    · cases asked
      rfl

/-- The handlers of the server and those it ever registered grow together. -/
def Admits (server next : TcpServer) (new : List ConnectionHandler) : Prop :=
  next.connectionManager.connections = server.connectionManager.connections ++ new ∧
    next.registered = server.registered ++ new

theorem Admits.none (connections : next.connectionManager = server.connectionManager)
    (registered : next.registered = server.registered) : Admits server next [] := by
  rw [Admits, connections, registered]
  simp

theorem pHandleAccept_admits {address fresh : Nat} {result : AcceptResult}
    (handled : server.pHandleAccept address result fresh = .ok next) :
    ∃ new, Admits server next new := by
  simp only [pHandleAccept] at handled
  split at handled
  · cases handled
    exact ⟨[], .none rfl rfl⟩
  · cases result with
    | failed err =>
        cases handled
        exact ⟨[], .none rfl rfl⟩
    | connected fd =>
        obtain ⟨manager, registers, rest⟩ := exists_ok_of_bind handled
        obtain ⟨⟨asked, allowed⟩, allows, rest⟩ := exists_ok_of_bind rest
        cases rest
        have connections := (allowAnotherConnection_connections allows).trans
          (registerConnectionHandler_connections registers)
        refine ⟨[⟨address, fd⟩], ?_, ?_⟩
        · cases allowed <;> exact connections
        · cases allowed <;> rfl

theorem step_admits {input : Input} (other : input.isDone = false)
    (stepped : server.step input = .ok next) : ∃ new, Admits server next new := by
  cases input with
  | connects | acceptFails | expires | terminate =>
      cases stepped
      exact ⟨[], .none rfl rfl⟩
  | run job fresh =>
      cases job with
      | startAccept | accepted =>
          cases stepped
          exact ⟨[], .none rfl rfl⟩
      | handleAccept address result =>
          exact @pHandleAccept_admits
            { server with queue := server.queue.erase (.handleAccept address result) } next address
            fresh result stepped
  | done handler => cases other
  | heartbeat =>
      cases stepped
      refine ⟨[], .none ?_ ?_⟩
      · dsimp only [pOnHeartbeat]
        split <;> rfl
      · dsimp only [pOnHeartbeat]
        split <;> rfl

theorem done_connections {handler : ConnectionHandler} (invariant : server.Invariant)
    (member : handler ∈ server.connectionManager.connections)
    (finished : server.done handler = .ok next) :
    next.connectionManager.connections = server.connectionManager.connections.erase handler := by
  simp only [done, invariant.sound.deregister member] at finished
  split at finished
  · cases finished
    rfl
  · cases finished
    rfl

end TcpServer

/-! ## Handlers that are done once -/

/-- A request handler that posts its done callback once, when none of its own
callbacks is left to be run.  `good` is what its callbacks keep. -/
structure RequestHandler.Settles {γ σ ι : Type} (app : RequestHandler γ σ ι) (guard : γ → ι → Prop)
    (good : σ → Prop) : Prop where
  begins : good app.handle ∧ app.done app.handle = 0
  keeps {context next : γ} {before after : σ} {completion : ι} : good before →
    app.Enabled before completion → guard context completion →
    app.callback context before completion = .ok (next, after) → good after
  once {state : σ} : good state →
    app.done state = 0 ∨ app.done state = 1 ∧ ∀ completion, ¬ app.Enabled state completion

/-- What callbacks keep of the shared state, of it together with a handler, and
between any two handlers. -/
structure RequestHandler.Shares {γ σ ι : Type} (app : RequestHandler γ σ ι) (guard : γ → ι → Prop)
    (good : σ → Prop) (fits : γ → Prop) (holds : γ → σ → Prop) (apart : σ → σ → Prop) : Prop where
  begins {context : γ} : fits context → holds context app.handle
  alone {state : σ} : apart app.handle state
  symm {left right : σ} : apart left right → apart right left
  own {context next : γ} {before after : σ} {completion : ι} : good before → fits context →
    holds context before → app.Enabled before completion → guard context completion →
    app.callback context before completion = .ok (next, after) → fits next ∧ holds next after
  others {context next : γ} {before after other : σ} {completion : ι} : good before → fits context →
    holds context before → holds context other → apart before other →
    app.Enabled before completion → guard context completion →
    app.callback context before completion = .ok (next, after) → holds next other ∧ apart after other
  outside {context next : γ} : fits context → app.outside context next →
    fits next ∧ ∀ {state}, holds context state → holds next state

namespace Serving

variable {γ σ ι : Type} {app : RequestHandler γ σ ι} {guard : γ → ι → Prop} {good : σ → Prop}
  {serving next : Serving γ σ}

/-- The registered handlers are those that are served, and the posted callbacks
are those of handlers that are done. -/
structure Kept (app : RequestHandler γ σ ι) (good : σ → Prop) (serving : Serving γ σ) : Prop where
  invariant : serving.server.Invariant
  served : KeyedList.keys serving.handlers = serving.server.connectionManager.connections
  good : ∀ entry ∈ serving.handlers, good entry.value
  posted : ∀ entry ∈ serving.handlers, serving.done.count entry.key = app.done entry.value
  known : ∀ handler ∈ serving.done, handler ∈ KeyedList.keys serving.handlers
  accounted : serving.server.registered.Perm (KeyedList.keys serving.handlers ++ serving.ended)

theorem Kept.distinct (kept : Kept app good serving) : (KeyedList.keys serving.handlers).Nodup := by
  rw [kept.served]
  exact List.Nodup.of_map _ kept.invariant.sound.addresses

theorem listen_kept (maxConnections : Nat) (context : γ) :
    Kept app good (listen maxConnections context) where
  invariant := TcpServer.listen_invariant maxConnections
  served := rfl
  good _ member := by cases member
  posted _ member := by cases member
  known _ member := by cases member
  accounted := .refl _

theorem served_of_admits {before after : TcpServer} {new : List ConnectionHandler}
    (admits : TcpServer.Admits before after new) : Serving.served before after = new := by
  rw [Serving.served, admits.2, List.drop_left]

/-- Every handler that is registered is served from the beginning. -/
theorem Kept.server (settles : app.Settles guard good) (kept : Kept app good serving)
    {input : TcpServer.Input} (enabled : serving.server.Enabled input)
    (other : input.isDone = false)
    (stepped : serving.step app (.server input) = .ok next) : Kept app good next := by
  obtain ⟨server, taken, rest⟩ := exists_ok_of_bind stepped
  obtain rfl := Except.ok.inj rest
  obtain ⟨after, same, invariant⟩ := TcpServer.step_keeps kept.invariant enabled
  obtain rfl := Except.ok.inj (taken.symm.trans same)
  obtain ⟨new, admits⟩ := TcpServer.step_admits other taken
  have begun := served_of_admits admits
  have keys : KeyedList.keys (serving.handlers ++ (Serving.served serving.server server).map
      (fun handler => (⟨handler, app.handle⟩ : Entry ConnectionHandler σ))) =
        KeyedList.keys serving.handlers ++ new := by
    rw [begun, KeyedList.keys_append]
    simp [KeyedList.keys, Function.comp_def]
  have fresh : ∀ handler ∈ new, handler ∉ KeyedList.keys serving.handlers := by
    have distinct : (server.connectionManager.connections).Nodup :=
      List.Nodup.of_map _ invariant.sound.addresses
    rw [admits.1, ← kept.served, List.nodup_append] at distinct
    exact fun handler member listed => distinct.2.2 handler listed handler member rfl
  refine ⟨invariant, ?_, ?_, ?_, ?_, ?_⟩
  · exact keys.trans (by rw [kept.served, admits.1])
  · intro entry member
    rcases List.mem_append.mp member with old | added
    · exact kept.good entry old
    · obtain ⟨handler, _, rfl⟩ := List.mem_map.mp added
      exact settles.begins.1
  · intro entry member
    rcases List.mem_append.mp member with old | added
    · exact kept.posted entry old
    · obtain ⟨handler, listed, rfl⟩ := List.mem_map.mp added
      rw [begun] at listed
      rw [settles.begins.2, List.count_eq_zero]
      exact fun waiting => fresh handler listed (kept.known handler waiting)
  · intro handler member
    rw [keys]
    exact List.mem_append_left _ (kept.known handler member)
  · rw [keys, admits.2]
    refine (kept.accounted.append_right new).trans ?_
    simp only [List.append_assoc]
    exact List.perm_append_comm.append_left _

/-- A callback changes the state of its own handler, and posts for that handler only. -/
theorem Kept.callback (settles : app.Settles guard good) (kept : Kept app good serving)
    {handler : ConnectionHandler} {completion : ι} (guarded : guard serving.context completion)
    (enabled : serving.Enabled app (.callback handler completion))
    (stepped : serving.step app (.callback handler completion) = .ok next) :
    Kept app good next := by
  obtain ⟨_, before, found, ready⟩ := enabled
  have member := KeyedList.mem_of_lookup found
  have known : handler ∈ KeyedList.keys serving.handlers := List.mem_map_of_mem member
  simp only [step, Serving.callback, Option.mem_def.mp found] at stepped
  obtain ⟨⟨context, after⟩, called, rest⟩ := exists_ok_of_bind stepped
  obtain rfl := Except.ok.inj rest
  have better := settles.keeps (kept.good _ member) ready guarded called
  have fresh : app.done before = 0 := by
    rcases settles.once (kept.good _ member) with none | ⟨_, idle⟩
    · exact none
    · exact absurd ready (idle completion)
  have keys := @KeyedList.keys_put_of_mem _ _ _ handler after serving.handlers known
  refine ⟨kept.invariant, keys.trans kept.served, ?_, ?_, ?_, ?_⟩
  · intro entry listed
    rcases KeyedList.mem_put listed with rfl | old
    · exact better
    · exact kept.good entry old
  · intro entry listed
    rw [List.count_append]
    rcases KeyedList.mem_put_of_nodup kept.distinct listed with rfl | ⟨old, different⟩
    · rw [kept.posted _ member, fresh, List.count_replicate_self, Nat.sub_zero, Nat.zero_add]
    · have apart : (List.replicate (app.done after - app.done before) handler).count entry.key = 0 :=
        List.count_eq_zero.mpr fun listed => different (List.eq_of_mem_replicate listed)
      rw [apart, kept.posted entry old]
      rfl
  · intro other posted
    rw [keys]
    rcases List.mem_append.mp posted with old | new
    · exact kept.known other old
    · rw [List.eq_of_mem_replicate new]
      exact known
  · rw [keys]
    exact kept.accounted

/-- A handler that is done is registered, so its callback deregisters it. -/
theorem Kept.finish (settles : app.Settles guard good) (kept : Kept app good serving)
    {handler : ConnectionHandler} (waiting : handler ∈ serving.done) :
    ∃ next, serving.step app (.done handler) = .ok next ∧ Kept app good next := by
  have known := kept.known handler waiting
  obtain ⟨server, finished, invariant, _, _, registered, _⟩ :=
    TcpServer.done_keeps kept.invariant (kept.served ▸ known)
  have connections := TcpServer.done_connections kept.invariant (kept.served ▸ known) finished
  obtain ⟨entry, member, rfl⟩ := List.mem_map.mp known
  have single : serving.done.count entry.key = 1 := by
    have present := List.count_pos_iff.mpr waiting
    rw [kept.posted entry member] at present ⊢
    rcases settles.once (kept.good entry member) with none | ⟨one, _⟩
    · omega
    · exact one
  have gone : entry.key ∉ serving.done.erase entry.key := by
    rw [← List.count_eq_zero, List.count_erase_self, single]
  refine ⟨_, by simp only [step, finished, bind, Except.bind]; rfl, invariant, ?_, ?_, ?_, ?_, ?_⟩
  · rw [KeyedList.keys_remove, kept.served, connections]
  · intro other listed
    exact kept.good other (KeyedList.mem_remove_of_nodup kept.distinct listed).1
  · intro other listed
    obtain ⟨old, different⟩ := KeyedList.mem_remove_of_nodup kept.distinct listed
    rw [List.count_erase_of_ne different, kept.posted other old]
  · intro other listed
    refine (KeyedList.mem_keys_remove kept.distinct).mpr ⟨?_, ?_⟩
    · intro same
      exact gone (same ▸ listed)
    · exact kept.known other (List.mem_of_mem_erase listed)
  · rw [registered, KeyedList.keys_remove]
    refine kept.accounted.trans ?_
    refine ((List.perm_cons_erase known).append_right serving.ended).trans ?_
    rw [← List.append_assoc]
    exact (List.perm_append_singleton entry.key _).symm

theorem step_kept (settles : app.Settles guard good) (kept : Kept app good serving)
    {input : Input γ ι} (guarded : serving.Guarded guard input) (enabled : serving.Enabled app input)
    (stepped : serving.step app input = .ok next) : Kept app good next := by
  cases input with
  | server input => exact kept.server settles enabled.1 enabled.2 stepped
  | callback handler completion => exact kept.callback settles guarded enabled stepped
  | done handler =>
      obtain ⟨after, finished, better⟩ := kept.finish settles enabled.2
      obtain rfl := Except.ok.inj (finished.symm.trans stepped)
      exact better
  | outside context =>
      obtain rfl := Except.ok.inj stepped
      exact ⟨kept.invariant, kept.served, kept.good, kept.posted, kept.known, kept.accounted⟩

theorem callback_server {handler : ConnectionHandler} {completion : ι}
    (called : serving.callback app handler completion = .ok next) : next.server = serving.server := by
  simp only [Serving.callback] at called
  split at called
  · cases called
    rfl
  · obtain ⟨⟨context, after⟩, _, rest⟩ := exists_ok_of_bind called
    cases rest
    rfl

theorem step_maxConnections (kept : Kept app good serving) {input : Input γ ι}
    (enabled : serving.Enabled app input)
    (stepped : serving.step app input = .ok next) :
    next.server.maxConnections = serving.server.maxConnections := by
  cases input with
  | server input =>
      obtain ⟨server, taken, rest⟩ := exists_ok_of_bind stepped
      obtain rfl := Except.ok.inj rest
      exact TcpServer.step_maxConnections kept.invariant enabled.1 taken
  | callback handler completion => rw [callback_server stepped]
  | done handler =>
      have registered := kept.served ▸ kept.known handler enabled.2
      obtain ⟨server, finished, _, _, _, _, same, _⟩ :=
        TcpServer.done_keeps kept.invariant registered
      obtain ⟨after, taken, rest⟩ := exists_ok_of_bind stepped
      obtain rfl := Except.ok.inj rest
      obtain rfl := Except.ok.inj (finished.symm.trans taken)
      exact same
  | outside context =>
      obtain rfl := Except.ok.inj stepped
      rfl

theorem reaches_guarded {maxConnections : Nat} {context : γ}
    (reached : (runs app maxConnections context).Reaches Transition.unguarded serving) :
    (runs app maxConnections context).Reaches (Guarded fun _ _ => True) serving :=
  reached.mono fun {_ input} _ => by
    cases input with
    | callback handler completion => trivial
    | server input => trivial
    | done handler => trivial
    | outside context => trivial

theorem reaches_kept (settles : app.Settles guard good) {maxConnections : Nat} {context : γ}
    (reached : (runs app maxConnections context).Reaches (Guarded guard) serving) :
    Kept app good serving ∧ serving.server.maxConnections = maxConnections := by
  refine @Transition.Reaches.invariant _ _ _ _
    (fun state => Kept app good state ∧ state.server.maxConnections = maxConnections) ?_ ?_ _ reached
  · intro state start
    obtain rfl : state = listen maxConnections context := start
    exact ⟨listen_kept maxConnections context, rfl⟩
  · intro state input after held guarded taken
    exact ⟨step_kept settles held.1 guarded taken.1 taken.2,
      (step_maxConnections held.1 taken.1 taken.2).trans held.2⟩

/-- The server with a handler that settles: the limit holds, the registered
connections are those that are served, each connection that was ever registered
is served or was deregistered, and a posted done callback is that of a registered
handler with no callback left, so that it deregisters the handler. -/
structure Orderly (app : RequestHandler γ σ ι) (maxConnections : Nat) (serving : Serving γ σ) :
    Prop where
  limit : serving.handlers.length ≤ maxConnections
  served : KeyedList.keys serving.handlers = serving.server.connectionManager.connections
  accounted : serving.server.registered.Perm (KeyedList.keys serving.handlers ++ serving.ended)
  single : serving.done.Nodup
  settled : ∀ handler ∈ serving.done, ∃ state ∈ KeyedList.lookup handler serving.handlers,
    app.done state = 1 ∧ ∀ completion, ¬ app.Enabled state completion
  pending : ∀ handler, ∀ state ∈ KeyedList.lookup handler serving.handlers,
    app.done state = 0 ∨ handler ∈ serving.done
  deregisters : ∀ handler, serving.Enabled app (.done handler) →
    ∃ next, serving.step app (.done handler) = .ok next

theorem Kept.orderly (settles : app.Settles guard good) (kept : Kept app good serving)
    (positive : 1 ≤ serving.server.maxConnections) :
    Orderly app serving.server.maxConnections serving where
  limit := by
    have length := congrArg List.length kept.served
    have bound := kept.invariant.limit
    rw [TcpServer.places, Nat.max_eq_left positive] at bound
    rw [KeyedList.keys, List.length_map] at length
    exact length.trans_le bound
  served := kept.served
  accounted := kept.accounted
  single := by
    rw [List.nodup_iff_count_le_one]
    intro handler
    by_cases waiting : handler ∈ serving.done
    · obtain ⟨entry, member, rfl⟩ := List.mem_map.mp (kept.known handler waiting)
      rw [kept.posted entry member]
      rcases settles.once (kept.good entry member) with none | ⟨one, _⟩
      · exact none.trans_le (Nat.zero_le 1)
      · exact Nat.le_of_eq one
    · rw [List.count_eq_zero.mpr waiting]
      exact Nat.zero_le 1
  settled := by
    intro handler waiting
    obtain ⟨state, found⟩ := Option.ne_none_iff_exists'.mp
      (fun missing => KeyedList.lookup_eq_none.mp missing (kept.known handler waiting))
    have member := KeyedList.mem_of_lookup found
    have present := List.count_pos_iff.mpr waiting
    refine ⟨state, found, ?_⟩
    rw [kept.posted _ member] at present
    rcases settles.once (kept.good _ member) with none | settled
    · exact absurd none (Nat.ne_of_gt present)
    · exact settled
  pending := by
    intro handler state found
    have counted := kept.posted _ (KeyedList.mem_of_lookup found)
    rcases Nat.eq_zero_or_pos (app.done state) with none | some
    · exact .inl none
    · exact .inr (List.count_pos_iff.mp (counted ▸ some))
  deregisters := by
    intro handler enabled
    obtain ⟨next, finished, _⟩ := kept.finish settles enabled.2
    exact ⟨next, finished⟩

/-! ## What the handlers share -/

variable {fits : γ → Prop} {holds : γ → σ → Prop} {apart : σ → σ → Prop}

structure Shared (fits : γ → Prop) (holds : γ → σ → Prop) (apart : σ → σ → Prop)
    (serving : Serving γ σ) : Prop where
  fits : fits serving.context
  holds : ∀ entry ∈ serving.handlers, holds serving.context entry.value
  apart : ∀ left ∈ serving.handlers, ∀ right ∈ serving.handlers, left.key ≠ right.key →
    apart left.value right.value

theorem Shared.callback (shares : app.Shares guard good fits holds apart)
    (kept : Kept app good serving) (shared : Shared fits holds apart serving)
    {handler : ConnectionHandler} {completion : ι} (guarded : guard serving.context completion)
    (enabled : serving.Enabled app (.callback handler completion))
    (stepped : serving.step app (.callback handler completion) = .ok next) :
    Shared fits holds apart next := by
  obtain ⟨_, before, found, ready⟩ := enabled
  have member := KeyedList.mem_of_lookup found
  simp only [step, Serving.callback, Option.mem_def.mp found] at stepped
  obtain ⟨⟨context, after⟩, called, rest⟩ := exists_ok_of_bind stepped
  obtain rfl := Except.ok.inj rest
  have fine := kept.good _ member
  have held := shared.holds _ member
  obtain ⟨fitted, own⟩ := shares.own fine shared.fits held ready guarded called
  have others : ∀ entry ∈ serving.handlers, entry.key ≠ handler →
      holds context entry.value ∧ apart after entry.value := by
    intro entry listed different
    exact shares.others fine shared.fits held (shared.holds entry listed)
      (shared.apart _ member entry listed (Ne.symm different)) ready guarded called
  refine ⟨fitted, ?_, ?_⟩
  · intro entry listed
    rcases KeyedList.mem_put_of_nodup kept.distinct listed with rfl | ⟨old, different⟩
    · exact own
    · exact (others entry old different).1
  · intro left leftListed right rightListed apart
    rcases KeyedList.mem_put_of_nodup kept.distinct leftListed with rfl | ⟨leftOld, leftOther⟩
    · rcases KeyedList.mem_put_of_nodup kept.distinct rightListed with rfl | ⟨rightOld, rightOther⟩
      · exact absurd rfl apart
      · exact (others right rightOld rightOther).2
    · rcases KeyedList.mem_put_of_nodup kept.distinct rightListed with rfl | ⟨rightOld, rightOther⟩
      · exact shares.symm (others left leftOld leftOther).2
      · exact shared.apart left leftOld right rightOld apart

theorem step_shared (shares : app.Shares guard good fits holds apart) (kept : Kept app good serving)
    (shared : Shared fits holds apart serving) {input : Input γ ι}
    (guarded : serving.Guarded guard input) (enabled : serving.Enabled app input)
    (stepped : serving.step app input = .ok next) : Shared fits holds apart next := by
  cases input with
  | server input =>
      obtain ⟨server, taken, rest⟩ := exists_ok_of_bind stepped
      obtain rfl := Except.ok.inj rest
      have cases : ∀ entry ∈ serving.handlers ++ (Serving.served serving.server server).map
          (fun handler => (⟨handler, app.handle⟩ : Entry ConnectionHandler σ)),
          entry ∈ serving.handlers ∨ entry.value = app.handle := by
        intro entry member
        rcases List.mem_append.mp member with old | added
        · exact .inl old
        · obtain ⟨handler, _, rfl⟩ := List.mem_map.mp added
          exact .inr rfl
      refine ⟨shared.fits, ?_, ?_⟩
      · intro entry member
        rcases cases entry member with old | begun
        · exact shared.holds entry old
        · rw [begun]
          exact shares.begins shared.fits
      · intro left leftMember right rightMember different
        rcases cases left leftMember with leftOld | leftBegun
        · rcases cases right rightMember with rightOld | rightBegun
          · exact shared.apart left leftOld right rightOld different
          · rw [rightBegun]
            exact shares.symm shares.alone
        · rw [leftBegun]
          exact shares.alone
  | callback handler completion => exact shared.callback shares kept guarded enabled stepped
  | done handler =>
      obtain ⟨server, _, rest⟩ := exists_ok_of_bind stepped
      obtain rfl := Except.ok.inj rest
      refine ⟨shared.fits, fun entry member => ?_, fun left leftMember right rightMember => ?_⟩
      · exact shared.holds entry (KeyedList.mem_remove_of_nodup kept.distinct member).1
      · exact shared.apart left (KeyedList.mem_remove_of_nodup kept.distinct leftMember).1 right
          (KeyedList.mem_remove_of_nodup kept.distinct rightMember).1
  | outside context =>
      obtain rfl := Except.ok.inj stepped
      obtain ⟨fitted, kept⟩ := shares.outside shared.fits enabled
      exact ⟨fitted, fun entry member => kept (shared.holds entry member), shared.apart⟩

theorem reaches_shared (settles : app.Settles guard good)
    (shares : app.Shares guard good fits holds apart) {maxConnections : Nat} {context : γ}
    (fitted : fits context)
    (reached : (runs app maxConnections context).Reaches (Guarded guard) serving) :
    Shared fits holds apart serving := by
  refine (@Transition.Reaches.invariant _ _ _ _
    (fun state => Kept app good state ∧ Shared fits holds apart state) ?_ ?_ _ reached).2
  · intro state start
    obtain rfl : state = listen maxConnections context := start
    refine ⟨listen_kept maxConnections context, fitted, fun _ member => ?_, fun _ member => ?_⟩
    · cases member
    · cases member
  · intro state input after held guarded taken
    exact ⟨step_kept settles held.1 guarded taken.1 taken.2,
      step_shared shares held.1 held.2 guarded taken.1 taken.2⟩

/-! ## Handlers that make progress -/

/-- A tally of the shared state and of the number of callbacks, which a callback
raises by no more than it lowers the rank of its handler. -/
structure Ranked (app : RequestHandler γ σ ι) (guard : γ → ι → Prop) (good : σ → Prop)
    (tally : γ → Nat → Nat) (rank : σ → Nat) (bound : Nat) : Prop where
  begins : rank app.handle ≤ bound
  lowers {context next : γ} {before after : σ} {completion : ι} : good before →
    app.Enabled before completion → guard context completion →
    app.callback context before completion = .ok (next, after) → ∀ callbacks,
      tally next (callbacks + 1) + rank after ≤ tally context callbacks + rank before
  outside {context next : γ} : app.outside context next → ∀ callbacks,
    tally next callbacks ≤ tally context callbacks

def rankSum (rank : σ → Nat) (handlers : List (Entry ConnectionHandler σ)) : Nat :=
  (handlers.map (fun entry => rank entry.value)).sum

theorem rankSum_put {rank : σ → Nat} {handler : ConnectionHandler} {before after : σ}
    {handlers : List (Entry ConnectionHandler σ)}
    (found : KeyedList.lookup handler handlers = some before) :
    rankSum rank (KeyedList.put handler after handlers) + rank before =
      rankSum rank handlers + rank after := by
  induction handlers with
  | nil => cases found
  | cons entry rest ih =>
      by_cases same : entry.key = handler
      · have first : entry.value = before := by
          simpa [KeyedList.lookup, KeyedList.restrict, same] using found
        simp only [KeyedList.put, if_pos same, rankSum, List.map_cons, List.sum_cons, first]
        omega
      · have later : KeyedList.lookup handler rest = some before := by
          simpa [KeyedList.lookup, KeyedList.restrict, same] using found
        have rested := ih later
        simp only [KeyedList.put, if_neg same, rankSum, List.map_cons, List.sum_cons] at rested ⊢
        omega

theorem rankSum_remove (rank : σ → Nat) (handler : ConnectionHandler)
    (handlers : List (Entry ConnectionHandler σ)) :
    rankSum rank (KeyedList.remove handler handlers) ≤ rankSum rank handlers :=
  (List.eraseP_sublist.map _).sum_le_sum fun _ _ => Nat.zero_le _

/-- The tally so far, and what the ranks leave of it. -/
def Bounded (tally : γ → Nat → Nat) (rank : σ → Nat) (bound : Nat) (serving : Serving γ σ) : Prop :=
  tally serving.context serving.callbacks + rankSum rank serving.handlers ≤
    bound * serving.server.registered.length

variable {tally : γ → Nat → Nat} {rank : σ → Nat} {bound : Nat}

theorem step_bounded (ranked : Ranked app guard good tally rank bound) (kept : Kept app good serving)
    (bounded : serving.Bounded tally rank bound) {input : Input γ ι}
    (guarded : serving.Guarded guard input) (enabled : serving.Enabled app input)
    (stepped : serving.step app input = .ok next) : next.Bounded tally rank bound := by
  unfold Bounded at bounded ⊢
  cases input with
  | server input =>
      obtain ⟨server, taken, rest⟩ := exists_ok_of_bind stepped
      obtain rfl := Except.ok.inj rest
      obtain ⟨new, admits⟩ := TcpServer.step_admits enabled.2 taken
      have begun : rankSum rank ((Serving.served serving.server server).map
          (fun handler => (⟨handler, app.handle⟩ : Entry ConnectionHandler σ))) ≤
            bound * new.length := by
        have each : rankSum rank (new.map (fun handler => ⟨handler, app.handle⟩)) =
            new.length * rank app.handle := by
          simp [rankSum, Function.comp_def]
        rw [served_of_admits admits, each, Nat.mul_comm]
        exact Nat.mul_le_mul_right _ ranked.begins
      simp only [rankSum, List.map_append, List.sum_append, admits.2, List.length_append,
        Nat.mul_add] at bounded begun ⊢
      omega
  | callback handler completion =>
      obtain ⟨_, before, found, ready⟩ := enabled
      simp only [step, Serving.callback, Option.mem_def.mp found] at stepped
      obtain ⟨⟨context, after⟩, called, rest⟩ := exists_ok_of_bind stepped
      obtain rfl := Except.ok.inj rest
      have lower := ranked.lowers (kept.good _ (KeyedList.mem_of_lookup found)) ready guarded called
        serving.callbacks
      have moved := @rankSum_put _ rank handler before after serving.handlers found
      dsimp only at lower ⊢
      omega
  | done handler =>
      have registered := kept.served ▸ kept.known handler enabled.2
      obtain ⟨server, finished, _, _, _, same, _⟩ := TcpServer.done_keeps kept.invariant registered
      obtain ⟨after, taken, rest⟩ := exists_ok_of_bind stepped
      obtain rfl := Except.ok.inj rest
      obtain rfl := Except.ok.inj (finished.symm.trans taken)
      have fewer := rankSum_remove rank handler serving.handlers
      dsimp only
      rw [same]
      omega
  | outside context =>
      obtain rfl := Except.ok.inj stepped
      have less := ranked.outside enabled serving.callbacks
      dsimp only
      omega

theorem reaches_bounded (settles : app.Settles guard good)
    (ranked : Ranked app guard good tally rank bound) {maxConnections : Nat} {context : γ}
    (none : tally context 0 = 0)
    (reached : (runs app maxConnections context).Reaches (Guarded guard) serving) :
    serving.Bounded tally rank bound := by
  refine (@Transition.Reaches.invariant _ _ _ _
    (fun state => Kept app good state ∧ state.Bounded tally rank bound) ?_ ?_ _ reached).2
  · intro state start
    obtain rfl : state = listen maxConnections context := start
    exact ⟨listen_kept maxConnections context, none.trans_le (Nat.zero_le _)⟩
  · intro state input after held guarded taken
    exact ⟨step_kept settles held.1 guarded taken.1 taken.2,
      step_bounded ranked held.1 held.2 guarded taken.1 taken.2⟩

end Serving

end Marvin.Server
