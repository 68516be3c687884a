import Marvin.Server.TcpServer

namespace Marvin.Server

open Marvin.Data

/-! # Accepting

The permission to accept is in exactly one place: a posted `p_start_accept`, an
outstanding accept, the completion of one, or the callback that the connection
manager stores.  Every step of the server moves it, and none loses or doubles it.
-/

namespace TcpServer

def outstanding (server : TcpServer) : Nat :=
  server.accepting.length + (server.queue.filterMap ServerJob.address?).length

def posted (server : TcpServer) : Nat :=
  server.queue.count .startAccept

def maxConnections (server : TcpServer) : Nat :=
  server.connectionManager.maxNumberOfConnections

/-- One accept is started whatever the limit is. -/
def places (server : TcpServer) : Nat :=
  max server.maxConnections 1

def hasRoom (server : TcpServer) : Prop :=
  server.connectionManager.connections.length < server.places

/-- The permission to accept is in one place. -/
inductive Place (server : TcpServer) : Prop where
  | posted (none : server.accepting = []) (queued : server.queue = [.startAccept])
      (unstored : server.connectionManager.allowMoreCallback = false) (room : server.hasRoom)
  | outstanding {address : Nat} (waiting : server.accepting = [address]) (queued : server.queue = [])
      (unstored : server.connectionManager.allowMoreCallback = false) (room : server.hasRoom)
      (unknown : address ∉ server.connectionManager.addresses)
  | completed {address : Nat} {result : AcceptResult} (none : server.accepting = [])
      (queued : server.queue = [.accepted address result] ∨
        server.queue = [.handleAccept address result])
      (unstored : server.connectionManager.allowMoreCallback = false) (room : server.hasRoom)
      (unknown : address ∉ server.connectionManager.addresses)
      (unused : ∀ fd, result = .connected fd → fd ∉ server.connectionManager.descriptors)
  | deferred (none : server.accepting = []) (queued : server.queue = [])
      (stored : server.connectionManager.allowMoreCallback = true)
      (full : server.maxConnections ≤ server.connectionManager.connections.length)

structure Invariant (server : TcpServer) : Prop where
  sound : server.connectionManager.Sound
  opened : server.isOpen = true
  limit : server.connectionManager.connections.length ≤ server.places
  place : server.stopped = false → server.Place

variable {server : TcpServer}

theorem listen_invariant (maxConnections : Nat) : (listen maxConnections).Invariant where
  sound := ServerConnectionManager.new_sound maxConnections
  opened := rfl
  limit := Nat.zero_le _
  place _ := .posted rfl rfl rfl (Nat.lt_of_lt_of_le Nat.zero_lt_one (Nat.le_max_right _ _))

theorem Invariant.moved {next : TcpServer} (invariant : server.Invariant)
    (manager : next.connectionManager = server.connectionManager)
    (opened : next.isOpen = server.isOpen) (place : next.stopped = false → next.Place) :
    next.Invariant where
  sound := manager ▸ invariant.sound
  opened := opened.trans invariant.opened
  limit := by simpa only [places, maxConnections, manager] using invariant.limit
  place := place

theorem Place.congr {next : TcpServer} (place : server.Place)
    (manager : next.connectionManager = server.connectionManager)
    (accepting : next.accepting = server.accepting) (queue : next.queue = server.queue) :
    next.Place := by
  have room : server.hasRoom → next.hasRoom := by
    intro free
    simpa only [hasRoom, places, maxConnections, manager] using free
  cases place with
  | posted none queued unstored free =>
      exact .posted (accepting.trans none) (queue.trans queued) (manager ▸ unstored) (room free)
  | outstanding waiting queued unstored free unknown =>
      exact .outstanding (accepting.trans waiting) (queue.trans queued) (manager ▸ unstored)
        (room free) (manager ▸ unknown)
  | completed none queued unstored free unknown unused =>
      exact .completed (accepting.trans none) (queue.symm ▸ queued) (manager ▸ unstored)
        (room free) (manager ▸ unknown) (manager ▸ unused)
  | deferred none queued stored full =>
      exact .deferred (accepting.trans none) (queue.trans queued) (manager ▸ stored)
        (by simpa only [maxConnections, manager] using full)

/-! ## The jobs -/

theorem startAccept_keeps {fresh : Nat} (invariant : server.Invariant)
    (running : server.stopped = false) (queued : .startAccept ∈ server.queue)
    (unused : fresh ∉ server.addresses) :
    ({ server with queue := server.queue.erase .startAccept }.pStartAccept fresh).Invariant := by
  refine invariant.moved rfl rfl fun _ => ?_
  have unknown : fresh ∉ server.connectionManager.addresses := fun member =>
    unused (by simp [addresses, member])
  cases invariant.place running with
  | posted none whole unstored room =>
      exact .outstanding (by simp [pStartAccept, none]) (by simp [pStartAccept, whole]) unstored
        room unknown
  | outstanding _ whole => simp [whole] at queued
  | completed _ whole => rcases whole with whole | whole <;> simp [whole] at queued
  | deferred _ whole => simp [whole] at queued

theorem complete_keeps {address : Nat} {result : AcceptResult} (invariant : server.Invariant)
    (running : server.stopped = false) (member : address ∈ server.accepting)
    (unused : ∀ fd, result = .connected fd → fd ∉ server.descriptors) :
    (server.complete address result).Invariant := by
  refine invariant.moved rfl rfl fun _ => ?_
  cases invariant.place running with
  | posted none => simp [none] at member
  | completed none => simp [none] at member
  | deferred none => simp [none] at member
  | @outstanding other waiting queued unstored room unknown =>
      obtain rfl : address = other := by simpa [waiting] using member
      refine @Place.completed _ address result ?_ (.inl ?_) unstored room unknown ?_
      · simp [complete, post, waiting]
      · simp [complete, post, queued]
      · intro fd connected listed
        exact unused fd connected (List.mem_append_left _ listed)

theorem accepted_keeps {address : Nat} {result : AcceptResult} (invariant : server.Invariant)
    (running : server.stopped = false) (queued : .accepted address result ∈ server.queue) :
    ({ server with queue := server.queue.erase (.accepted address result) }.post
      (.handleAccept address result)).Invariant := by
  refine invariant.moved rfl rfl fun _ => ?_
  cases invariant.place running with
  | posted _ whole => simp [whole] at queued
  | outstanding _ whole => simp [whole] at queued
  | deferred _ whole => simp [whole] at queued
  | completed none whole unstored room unknown unused =>
      rcases whole with whole | whole
      · obtain ⟨rfl, rfl⟩ : address = _ ∧ result = _ := by simpa [whole] using queued
        exact .completed none (.inr (by simp [post, whole])) unstored room unknown unused
      · simp [whole] at queued

def accepted (server : TcpServer) (handler : ConnectionHandler) : TcpServer :=
  { server with
    connectionManager := server.connectionManager.registered handler
    registered := server.registered ++ [handler] }

/-- The server at its limit: the next accept waits for a handler to be done. -/
def deferring (server : TcpServer) : TcpServer :=
  { server with connectionManager := { server.connectionManager with allowMoreCallback := true } }

theorem pHandleAccept_full {address fresh : Nat} {fd : Int} (opened : server.isOpen = true)
    (registers : server.connectionManager.registerConnectionHandler ⟨address, fd⟩ =
      .ok (server.connectionManager.registered ⟨address, fd⟩))
    (unstored : server.connectionManager.allowMoreCallback = false)
    (full : server.connectionManager.maxNumberOfConnections ≤
      server.connectionManager.connections.length + 1) :
    server.pHandleAccept address (.connected fd) fresh =
      .ok (server.accepted ⟨address, fd⟩).deferring := by
  have closed : (!server.isOpen) = false := by rw [opened, Bool.not_true]
  have deferred := @ServerConnectionManager.allowAnotherConnection_full
    (server.connectionManager.registered ⟨address, fd⟩) unstored
    (by simpa [ServerConnectionManager.registered] using full)
  simp only [pHandleAccept, closed, registers, deferred, bind, Except.bind, pure, Except.pure,
    Bool.false_eq_true, if_false]
  rfl

theorem pHandleAccept_free {address fresh : Nat} {fd : Int} (opened : server.isOpen = true)
    (registers : server.connectionManager.registerConnectionHandler ⟨address, fd⟩ =
      .ok (server.connectionManager.registered ⟨address, fd⟩))
    (unstored : server.connectionManager.allowMoreCallback = false)
    (free : server.connectionManager.connections.length + 1 <
      server.connectionManager.maxNumberOfConnections) :
    server.pHandleAccept address (.connected fd) fresh =
      .ok ((server.accepted ⟨address, fd⟩).pStartAccept fresh) := by
  have closed : (!server.isOpen) = false := by rw [opened, Bool.not_true]
  have allowed := @ServerConnectionManager.allowAnotherConnection_free
    (server.connectionManager.registered ⟨address, fd⟩) unstored
    (by simpa [ServerConnectionManager.registered] using free)
  simp only [pHandleAccept, closed, registers, allowed, bind, Except.bind, pure, Except.pure,
    Bool.false_eq_true, if_false, if_true]
  rfl

/-- A waiting connection is registered, and the permission goes to the next accept
or to the connection manager. -/
theorem pHandleAccept_connected {address fresh : Nat} {fd : Int}
    (known : server.connectionManager.Sound) (opened : server.isOpen = true)
    (none : server.accepting = []) (taken : server.queue = []) (room : server.hasRoom)
    (unstored : server.connectionManager.allowMoreCallback = false)
    (unknown : address ∉ server.connectionManager.addresses)
    (unused : fd ∉ server.connectionManager.descriptors)
    (new : fresh ∉ server.connectionManager.addresses) (other : fresh ≠ address) :
    ∃ next, server.pHandleAccept address (.connected fd) fresh = .ok next ∧ next.Invariant ∧
      next.registered = server.registered ++ [⟨address, fd⟩] ∧ next.queue = [] ∧
      next.stopped = server.stopped ∧ next.terminateRequested = server.terminateRequested ∧
      next.maxConnections = server.maxConnections := by
  obtain ⟨registers, sound⟩ :=
    @ServerConnectionManager.Sound.register _ ⟨address, fd⟩ known unknown unused
  have limit : server.connectionManager.connections.length + 1 ≤ server.places := room
  rcases Nat.lt_or_ge (server.connectionManager.connections.length + 1)
      server.connectionManager.maxNumberOfConnections with free | full
  · refine ⟨_, pHandleAccept_free opened registers unstored free,
      ⟨sound, opened, ?_, fun _ => ?_⟩, rfl, taken, rfl, rfl, rfl⟩
    · simpa [pStartAccept, accepted, ServerConnectionManager.registered, places,
          maxConnections] using limit
    · refine @Place.outstanding _ fresh ?_ taken unstored ?_ ?_
      · simp [pStartAccept, accepted, none]
      · have room := Nat.lt_of_lt_of_le free (Nat.le_max_left _ 1)
        simpa [hasRoom, pStartAccept, accepted, ServerConnectionManager.registered, places,
          maxConnections] using room
      · simp only [pStartAccept, accepted, ServerConnectionManager.registered,
          ServerConnectionManager.addresses, List.map_append, List.mem_append]
        intro given
        rcases given with member | member
        · exact new member
        · exact other (by simpa using member)
  · refine ⟨_, pHandleAccept_full opened registers unstored full,
      ⟨⟨sound.addresses, sound.descriptors, sound.listed⟩, opened, ?_, fun _ => ?_⟩, rfl,
      taken, rfl, rfl, rfl⟩
    · simpa [deferring, accepted, ServerConnectionManager.registered, places,
          maxConnections] using limit
    · refine .deferred none taken rfl ?_
      simpa [deferring, accepted, ServerConnectionManager.registered, maxConnections] using full

theorem pHandleAccept_failed {address fresh : Nat} {err : ErrorType} (opened : server.isOpen = true) :
    server.pHandleAccept address (.failed err) fresh = .ok { server with stopped := true } := by
  have closed : (!server.isOpen) = false := by rw [opened, Bool.not_true]
  simp only [pHandleAccept, closed, Bool.false_eq_true, if_false]
  rfl

theorem handleAccept_keeps {address fresh : Nat} {result : AcceptResult}
    (invariant : server.Invariant) (running : server.stopped = false)
    (queued : .handleAccept address result ∈ server.queue) (new : fresh ∉ server.addresses) :
    ∃ next, step server (.run (.handleAccept address result) fresh) = .ok next ∧ next.Invariant ∧
      next.queue = [] ∧ next.terminateRequested = server.terminateRequested ∧
      next.maxConnections = server.maxConnections ∧
      ∀ fd, result = .connected fd → next.stopped = false ∧
        next.registered = server.registered ++ [⟨address, fd⟩] := by
  cases invariant.place running with
  | posted _ whole => simp [whole] at queued
  | outstanding _ whole => simp [whole] at queued
  | deferred _ whole => simp [whole] at queued
  | @completed waiting outcome none whole unstored room unknown unused =>
      rcases whole with whole | whole
      · simp [whole] at queued
      obtain ⟨rfl, rfl⟩ : address = waiting ∧ result = outcome := by simpa [whole] using queued
      have taken : server.queue.erase (.handleAccept address result) = [] := by simp [whole]
      simp only [step, taken, runJob]
      cases result with
      | failed err =>
          refine ⟨_, pHandleAccept_failed invariant.opened, ?_, rfl, rfl, rfl,
            fun _ same => by cases same⟩
          exact invariant.moved rfl rfl fun stopped => by cases stopped
      | connected fd =>
          have other : fresh ≠ address := by
            intro same
            subst same
            simp [addresses, whole, ServerJob.address?] at new
          have absent : fresh ∉ server.connectionManager.addresses := fun member =>
            new (by simp [addresses, member])
          obtain ⟨next, handled, kept, added, emptied, same, requested, limit⟩ :=
            @pHandleAccept_connected { server with queue := [] } address fresh fd invariant.sound
              invariant.opened none rfl room unstored unknown (unused fd rfl) absent other
          refine ⟨next, handled, kept, emptied, requested, limit, fun found equal => ?_⟩
          cases equal
          exact ⟨same.trans running, added⟩

/-! ## The other steps -/

theorem done_keeps {handler : ConnectionHandler} (invariant : server.Invariant)
    (member : handler ∈ server.connectionManager.connections) :
    ∃ next, server.done handler = .ok next ∧ next.Invariant ∧ next.stopped = server.stopped ∧
      next.terminateRequested = server.terminateRequested ∧ next.registered = server.registered ∧
      next.maxConnections = server.maxConnections ∧
      next.queue.filterMap ServerJob.result? = server.queue.filterMap ServerJob.result? := by
  have fewer : (server.connectionManager.without handler).connections.length ≤
      server.connectionManager.connections.length :=
    Nat.le_of_lt (Nat.lt_of_succ_le (Nat.le_of_eq (ServerConnectionManager.length_without member)))
  have limit := Nat.le_trans fewer invariant.limit
  have sound := invariant.sound.without handler
  simp only [done, invariant.sound.deregister member]
  split
  · next posts =>
      refine ⟨_, rfl, ⟨⟨sound.addresses, sound.descriptors, sound.listed⟩, invariant.opened, limit,
        fun running => ?_⟩, rfl, rfl, rfl, rfl, ?_⟩
      · have stored := posts.1
        cases invariant.place running with
        | posted _ _ unstored => simp [unstored] at stored
        | outstanding _ _ unstored => simp [unstored] at stored
        | completed _ _ unstored => simp [unstored] at stored
        | deferred none queued _ full =>
            refine .posted none (by simp [post, queued]) rfl ?_
            exact Nat.lt_of_lt_of_le posts.2 (Nat.le_max_left _ 1)
      · simp [post, ServerJob.result?]
  · next keeps =>
      refine ⟨_, rfl, ⟨sound, invariant.opened, limit, fun running => ?_⟩, rfl, rfl, rfl, rfl, rfl⟩
      have room : server.hasRoom →
          { server with connectionManager := server.connectionManager.without handler }.hasRoom :=
        Nat.lt_of_le_of_lt fewer
      cases invariant.place running with
      | posted none queued unstored free => exact .posted none queued unstored (room free)
      | outstanding waiting queued unstored free unknown =>
          exact .outstanding waiting queued unstored (room free)
            (ServerConnectionManager.addresses_without handler unknown)
      | completed none queued unstored free unknown unused =>
          exact .completed none queued unstored (room free)
            (ServerConnectionManager.addresses_without handler unknown)
            (fun fd connected =>
              ServerConnectionManager.descriptors_without handler (unused fd connected))
      | deferred none queued stored full =>
          refine .deferred none queued stored ?_
          exact Nat.not_lt.mp fun free => keeps ⟨stored, free⟩

theorem acceptorCancel_keeps (invariant : server.Invariant) (running : server.stopped = false) :
    server.acceptorCancel.Invariant := by
  refine invariant.moved rfl rfl fun _ => ?_
  cases invariant.place running with
  | posted none queued unstored room =>
      exact .posted rfl (by simp [acceptorCancel, none, queued]) unstored room
  | @outstanding address waiting queued unstored room unknown =>
      refine @Place.completed _ address (.failed .operationAborted) rfl (.inl ?_) unstored room
        unknown (fun fd same => by cases same)
      simp [acceptorCancel, waiting, queued]
  | completed none queued unstored room unknown unused =>
      exact .completed rfl (by simpa [acceptorCancel, none] using queued) unstored room unknown unused
  | deferred none queued stored full =>
      exact .deferred rfl (by simp [acceptorCancel, none, queued]) stored full

theorem pOnHeartbeat_keeps (invariant : server.Invariant) (running : server.stopped = false) :
    server.pOnHeartbeat.Invariant := by
  have ended : { server with heartbeat := .ended }.Invariant :=
    invariant.moved rfl rfl fun _ => (invariant.place running).congr rfl rfl rfl
  dsimp only [pOnHeartbeat]
  split
  · exact acceptorCancel_keeps ended running
  · exact ended.moved rfl rfl fun _ => (ended.place running).congr rfl rfl rfl

theorem step_keeps {input : Input} (invariant : server.Invariant) (enabled : server.Enabled input) :
    ∃ next, server.step input = .ok next ∧ next.Invariant := by
  cases input with
  | connects address fd =>
      refine ⟨_, rfl, complete_keeps invariant enabled.1 enabled.2.1 fun other connected => ?_⟩
      obtain rfl := AcceptResult.connected.inj connected
      exact enabled.2.2
  | acceptFails address err =>
      exact ⟨_, rfl, complete_keeps invariant enabled.1 enabled.2 fun other connected => by
        cases connected⟩
  | run job fresh =>
      obtain ⟨running, queued, new⟩ := enabled
      cases job with
      | startAccept => exact ⟨_, rfl, startAccept_keeps invariant running queued new⟩
      | accepted address result => exact ⟨_, rfl, accepted_keeps invariant running queued⟩
      | handleAccept address result =>
          obtain ⟨next, handled, kept, _⟩ := handleAccept_keeps invariant running queued new
          exact ⟨next, handled, kept⟩
  | done handler =>
      obtain ⟨next, deregistered, kept, _⟩ := done_keeps invariant enabled.2
      exact ⟨next, deregistered, kept⟩
  | expires =>
      exact ⟨_, rfl, invariant.moved rfl rfl fun _ =>
        (invariant.place enabled.1).congr rfl rfl rfl⟩
  | heartbeat => exact ⟨_, rfl, pOnHeartbeat_keeps invariant enabled.1⟩
  | terminate =>
      exact ⟨_, rfl, invariant.moved rfl rfl fun _ => (invariant.place enabled).congr rfl rfl rfl⟩

theorem step_maxConnections {input : Input} {next : TcpServer} (invariant : server.Invariant)
    (enabled : server.Enabled input) (stepped : server.step input = .ok next) :
    next.maxConnections = server.maxConnections := by
  cases input with
  | connects | acceptFails | expires | terminate =>
      obtain rfl := Except.ok.inj stepped
      rfl
  | run job fresh =>
      obtain ⟨running, queued, new⟩ := enabled
      cases job with
      | startAccept | accepted =>
          obtain rfl := Except.ok.inj stepped
          rfl
      | handleAccept address result =>
          obtain ⟨after, handled, _, _, _, same, _⟩ :=
            handleAccept_keeps invariant running queued new
          obtain rfl := Except.ok.inj (handled.symm.trans stepped)
          exact same
  | done handler =>
      obtain ⟨after, finished, _, _, _, _, same, _⟩ := done_keeps invariant enabled.2
      obtain rfl := Except.ok.inj (finished.symm.trans stepped)
      exact same
  | heartbeat =>
      obtain rfl := Except.ok.inj stepped
      dsimp only [pOnHeartbeat]
      split <;> rfl

theorem reached_invariant {maxConnections : Nat} {guard : TcpServer → Input → Prop}
    (reached : (runs maxConnections).Reaches guard server) :
    server.Invariant ∧ server.maxConnections = maxConnections := by
  refine @Transition.ofStep_invariant _ _ _ _ _ _ _
    (fun state => state.Invariant ∧ state.maxConnections = maxConnections) ?_ ?_ _ reached
  · intro state same
    subst same
    exact ⟨listen_invariant maxConnections, rfl⟩
  · intro state input held _ enabled
    obtain ⟨next, stepped, kept⟩ := step_keeps held.1 enabled
    exact ⟨next, stepped, kept, (step_maxConnections held.1 enabled stepped).trans held.2⟩

/-! ## Runs without a failed accept or a request to terminate -/

/-- No accept fails and termination is not requested. -/
def Undisturbed : Input → Prop
  | .acceptFails _ _ => False
  | .terminate => False
  | _ => True

instance : DecidablePred Undisturbed
  | .acceptFails _ _ => .isFalse id
  | .terminate => .isFalse id
  | .connects _ _ => .isTrue trivial
  | .run _ _ => .isTrue trivial
  | .done _ => .isTrue trivial
  | .expires => .isTrue trivial
  | .heartbeat => .isTrue trivial

/-- The server runs, and no accept has failed. -/
structure Calm (server : TcpServer) : Prop where
  running : server.stopped = false
  unrequested : server.terminateRequested = false
  connected : ∀ result ∈ server.queue.filterMap ServerJob.result?, ∃ fd, result = .connected fd

theorem Calm.moved {next : TcpServer} (calm : server.Calm) (running : next.stopped = server.stopped)
    (requested : next.terminateRequested = server.terminateRequested)
    (results : next.queue.filterMap ServerJob.result? ⊆ server.queue.filterMap ServerJob.result?) :
    next.Calm :=
  ⟨running.trans calm.running, requested.trans calm.unrequested,
    fun result member => calm.connected result (results member)⟩

theorem Calm.step {input : Input} {next : TcpServer} (calm : server.Calm)
    (invariant : server.Invariant) (undisturbed : Undisturbed input) (enabled : server.Enabled input)
    (stepped : server.step input = .ok next) : next.Calm := by
  cases input with
  | acceptFails address err => exact undisturbed.elim
  | terminate => exact undisturbed.elim
  | connects address fd =>
      obtain rfl := Except.ok.inj stepped
      refine ⟨calm.running, calm.unrequested, fun result member => ?_⟩
      simp only [complete, post, List.filterMap_append, List.mem_append] at member
      rcases member with old | new
      · exact calm.connected result old
      · exact ⟨fd, by simpa [ServerJob.result?] using new⟩
  | run job fresh =>
      have erased : (server.queue.erase job).filterMap ServerJob.result? ⊆
          server.queue.filterMap ServerJob.result? := (List.erase_sublist.filterMap _).subset
      obtain ⟨running, queued, new⟩ := enabled
      cases job with
      | startAccept =>
          obtain rfl := Except.ok.inj stepped
          exact calm.moved rfl rfl erased
      | accepted address result =>
          obtain rfl := Except.ok.inj stepped
          refine calm.moved rfl rfl ?_
          simp only [post, List.filterMap_append, List.append_subset]
          refine ⟨erased, ?_⟩
          intro other member
          obtain rfl : other = result := by simpa [ServerJob.result?] using member
          exact List.mem_filterMap.mpr ⟨_, queued, rfl⟩
      | handleAccept address result =>
          obtain ⟨fd, rfl⟩ := calm.connected result (List.mem_filterMap.mpr ⟨_, queued, rfl⟩)
          obtain ⟨after, handled, _, emptied, requested, _, registers⟩ :=
            handleAccept_keeps invariant running queued new
          obtain rfl := Except.ok.inj (handled.symm.trans stepped)
          refine calm.moved ((registers fd rfl).1.trans running.symm) requested ?_
          simp [emptied]
  | done handler =>
      obtain ⟨after, finished, _, running, requested, _, _, results⟩ := done_keeps invariant enabled.2
      obtain rfl := Except.ok.inj (finished.symm.trans stepped)
      exact calm.moved running requested (results ▸ List.Subset.refl _)
  | expires =>
      obtain rfl := Except.ok.inj stepped
      exact calm.moved rfl rfl (List.Subset.refl _)
  | heartbeat =>
      obtain rfl := Except.ok.inj stepped
      simp only [pOnHeartbeat, calm.unrequested, Bool.false_eq_true, if_false, pStartHeartbeat]
      exact calm.moved rfl calm.unrequested.symm (List.Subset.refl _)

theorem reached_calm {maxConnections : Nat}
    (reached : (runs maxConnections).Reaches (fun _ input => Undisturbed input) server) :
    server.Calm := by
  refine (@Transition.ofStep_invariant _ _ _ _ _ _ _ (fun state => state.Invariant ∧ state.Calm)
    ?_ ?_ _ reached).2
  · intro state same
    subst same
    refine ⟨listen_invariant maxConnections, rfl, rfl, fun result member => ?_⟩
    simp [listen, ServerJob.result?] at member
  · intro state input held undisturbed enabled
    obtain ⟨next, stepped, kept⟩ := step_keeps held.1 enabled
    exact ⟨next, stepped, kept, held.2.step held.1 undisturbed enabled stepped⟩

/-- The permission is in exactly one place. -/
theorem Place.alone (place : server.Place) :
    server.outstanding + server.posted + server.connectionManager.allowMoreCallback.toNat = 1 := by
  cases place with
  | posted none queued unstored =>
      simp [TcpServer.outstanding, TcpServer.posted, none, queued, unstored, ServerJob.address?]
  | outstanding waiting queued unstored =>
      simp [TcpServer.outstanding, TcpServer.posted, waiting, queued, unstored]
  | completed none queued unstored =>
      rcases queued with queued | queued <;>
        simp [TcpServer.outstanding, TcpServer.posted, none, queued, unstored, ServerJob.address?]
  | deferred none queued stored =>
      simp [TcpServer.outstanding, TcpServer.posted, none, queued, stored]

theorem Place.full (place : server.Place)
    (stored : server.connectionManager.allowMoreCallback = true) :
    server.maxConnections ≤ server.connectionManager.connections.length := by
  cases place with
  | posted _ _ unstored => simp [unstored] at stored
  | outstanding _ _ unstored => simp [unstored] at stored
  | completed _ _ unstored => simp [unstored] at stored
  | deferred _ _ _ full => exact full

/-- As long as no accept fails and termination is not requested, the limit holds,
the permission to accept is in one place and deferred only at the limit, and no
assertion of the connection manager fails. -/
theorem accepting_kept {maxConnections : Nat} (positive : 1 ≤ maxConnections)
    (reached : (runs maxConnections).Reaches (fun _ input => Undisturbed input) server) :
    server.connectionManager.connections.length ≤ maxConnections ∧
      server.outstanding + server.posted + server.connectionManager.allowMoreCallback.toNat = 1 ∧
      (server.connectionManager.allowMoreCallback = true →
        server.connectionManager.connections.length = maxConnections) ∧
      (∀ fd, fd ∈ server.connectionManager.fdList ↔
        ∃ handler ∈ server.connectionManager.connections, handler.fd = fd) ∧
      ∀ input, server.Enabled input → ∃ next, server.step input = .ok next := by
  obtain ⟨invariant, same⟩ := reached_invariant reached
  have place := invariant.place (reached_calm reached).running
  have limit : server.connectionManager.connections.length ≤ maxConnections := by
    have bound := invariant.limit
    rwa [places, same, Nat.max_eq_left positive] at bound
  refine ⟨limit, place.alone, fun stored => ?_, fun fd => ?_, fun input enabled => ?_⟩
  · exact Nat.le_antisymm limit (same ▸ place.full stored)
  · rw [invariant.sound.listed, ServerConnectionManager.descriptors, List.mem_map]
  · obtain ⟨next, stepped, _⟩ := step_keeps invariant enabled
    exact ⟨next, stepped⟩

def limitInputs : List Input :=
  [.run .startAccept 0, .connects 0 7, .run (.accepted 0 (.connected 7)) 1,
    .run (.handleAccept 0 (.connected 7)) 1]

def limitServer : TcpServer where
  connectionManager := ⟨1, [⟨0, 7⟩], [7], true⟩
  isOpen := true
  accepting := []
  queue := []
  heartbeat := .waiting
  terminateRequested := false
  stopped := false
  registered := [⟨0, 7⟩]

theorem limitServer_reached :
    (runs 1).Reaches (fun _ input => Undisturbed input) limitServer :=
  Transition.ofStep_follow (.initial rfl) (show limitInputs.foldlM
    (Transition.attempt (fun _ input => Undisturbed input) Enabled step) (listen 1) =
      some limitServer from rfl)

theorem accepting_kept_at_limit :
    limitServer.connectionManager.allowMoreCallback = true ∧
      limitServer.connectionManager.connections.length = 1 := by
  have kept := accepting_kept (Nat.le_refl 1) limitServer_reached
  exact ⟨rfl, kept.2.2.1 rfl⟩

end TcpServer

end Marvin.Server
