import Mathlib.Data.Fintype.EquivFin
import Marvin.Server.Accepting

namespace Marvin.Server

open Marvin.Data

/-! # Termination

The heartbeat that sees the request to terminate cancels the acceptor and is not
started again.  That ends the server when an accept is outstanding, and has no
effect on a permission to accept that is posted or stored, nor on a connection
that was accepted and waits for `p_handle_accept`.
-/

namespace TcpServer

variable {server : TcpServer}

/-- Nothing is queued but the completion of a failed accept, and no stored
callback can be released. -/
structure Stoppable (server : TcpServer) : Prop where
  failed : ∀ job ∈ server.queue, ∃ err, job.result? = some (.failed err)
  unstored : server.connectionManager.allowMoreCallback = true → server.maxConnections = 0

def continued (server : TcpServer) : Transition TcpServer Input :=
  (runs server.maxConnections).resume server

def RegistersNoMore (server : TcpServer) : Prop :=
  ∀ later, server.continued.Reaches Transition.unguarded later →
    later.registered = server.registered

/-! ## A server that stops -/

/-- The server has stopped, or only the failed accept is left to be handled. -/
structure Closing (server : TcpServer) : Prop where
  running : server.stopped = false → server.Stoppable ∧ server.accepting = []
  opened : server.isOpen = true
  sound : server.connectionManager.Sound

theorem Stoppable.moved {next : TcpServer} (stoppable : server.Stoppable)
    (manager : next.connectionManager = server.connectionManager)
    (queue : ∀ job ∈ next.queue, job ∈ server.queue ∨ ∃ err, job.result? = some (.failed err)) :
    next.Stoppable where
  failed job member := (queue job member).elim (stoppable.failed job) id
  unstored := by simpa only [maxConnections, manager] using stoppable.unstored

theorem Closing.done {handler : ConnectionHandler} (closing : server.Closing)
    (running : server.stopped = false) (member : handler ∈ server.connectionManager.connections) :
    ∃ next, server.done handler = .ok next ∧ next.Closing ∧ next.registered = server.registered := by
  obtain ⟨stoppable, none⟩ := closing.running running
  have sound := closing.sound.without handler
  have keeps : ¬(server.connectionManager.allowMoreCallback ∧
      (server.connectionManager.without handler).connections.length <
        server.connectionManager.maxNumberOfConnections) := by
    intro given
    obtain ⟨stored, free⟩ := given
    have limit : server.connectionManager.maxNumberOfConnections = 0 := stoppable.unstored stored
    omega
  simp only [TcpServer.done, closing.sound.deregister member, if_neg keeps]
  exact ⟨_, rfl, ⟨fun _ => ⟨⟨stoppable.failed, stoppable.unstored⟩, none⟩, closing.opened, sound⟩,
    rfl⟩

theorem Closing.step {input : Input} (closing : server.Closing) (enabled : server.Enabled input) :
    ∃ next, server.step input = .ok next ∧ next.Closing ∧ next.registered = server.registered := by
  have running : server.stopped = false := by
    cases input with
    | terminate => exact enabled
    | _ => exact enabled.1
  obtain ⟨stoppable, none⟩ := closing.running running
  cases input with
  | connects address fd =>
      have member := enabled.2.1
      simp [none] at member
  | acceptFails address err =>
      have member := enabled.2
      simp [none] at member
  | run job fresh =>
      obtain ⟨err, failed⟩ := stoppable.failed job enabled.2.1
      cases job with
      | startAccept => simp [ServerJob.result?] at failed
      | accepted address result =>
          refine ⟨_, rfl, ⟨fun _ => ⟨stoppable.moved rfl ?_, none⟩, closing.opened, closing.sound⟩, rfl⟩
          intro other member
          simp only [post, List.mem_append, List.mem_singleton] at member
          rcases member with old | rfl
          · exact .inl (List.mem_of_mem_erase old)
          · exact .inr ⟨err, failed⟩
      | handleAccept address result =>
          obtain rfl : result = .failed err := by simpa [ServerJob.result?] using failed
          have stops := @pHandleAccept_failed
            { server with queue := server.queue.erase (.handleAccept address (.failed err)) }
            address fresh err closing.opened
          refine ⟨_, stops, ⟨fun started => ?_, closing.opened, closing.sound⟩, rfl⟩
          cases started
  | done handler => exact closing.done running enabled.2
  | expires | terminate =>
      exact ⟨_, rfl, ⟨fun _ => ⟨stoppable.moved rfl fun _ member => .inl member, none⟩,
        closing.opened, closing.sound⟩, rfl⟩
  | heartbeat =>
      refine ⟨_, rfl, ?_⟩
      dsimp only [pOnHeartbeat]
      split
      · refine ⟨⟨fun _ => ⟨stoppable.moved rfl fun job member => ?_, rfl⟩, closing.opened,
          closing.sound⟩, rfl⟩
        exact .inl (by simpa [acceptorCancel, none] using member)
      · exact ⟨⟨fun _ => ⟨stoppable.moved rfl fun _ member => .inl member, none⟩, closing.opened,
          closing.sound⟩, rfl⟩

theorem Closing.registersNoMore (closing : server.Closing) : server.RegistersNoMore := by
  intro later reached
  refine (@Transition.ofStep_invariant _ _ _ _ _ _ _
    (fun state => state.Closing ∧ state.registered = server.registered) ?_ ?_ _ reached).2
  · intro state same
    subst same
    exact ⟨closing, rfl⟩
  · intro state input held _ enabled
    obtain ⟨next, stepped, kept, same⟩ := held.1.step enabled
    exact ⟨next, stepped, kept, same.trans held.2⟩

/-- The heartbeat has cancelled the accept, or found it failed. -/
theorem Stoppable.cancelled (stoppable : server.Stoppable) (invariant : server.Invariant)
    (requested : server.terminateRequested = true) : server.pOnHeartbeat.Closing := by
  simp only [pOnHeartbeat, requested, if_true]
  refine ⟨fun _ => ⟨stoppable.moved rfl fun job member => ?_, rfl⟩, invariant.opened,
    invariant.sound⟩
  simp only [acceptorCancel, List.mem_append, List.mem_map] at member
  rcases member with old | ⟨address, _, rfl⟩
  · exact .inl old
  · exact .inr ⟨.operationAborted, rfl⟩

/-! ## A server that goes on -/

def Registers (server : TcpServer) : Prop :=
  ∃ later, server.continued.Reaches Transition.unguarded later ∧
    later.registered ≠ server.registered

theorem Registers.of_step {input : Input} {next : TcpServer} (registers : next.Registers)
    (invariant : server.Invariant) (enabled : server.Enabled input)
    (stepped : server.step input = .ok next) (same : next.registered = server.registered) :
    server.Registers := by
  obtain ⟨later, reached, more⟩ := registers
  have first : server.continued.Reaches Transition.unguarded next :=
    .step (.initial rfl) trivial ⟨enabled, stepped⟩
  rw [continued, step_maxConnections invariant enabled stepped] at reached
  exact ⟨later, first.resume reached, same ▸ more⟩

theorem exists_fresh {α : Type u} [Infinite α] [DecidableEq α] (used : List α) :
    ∃ entry, entry ∉ used := by
  obtain ⟨entry, new⟩ := Infinite.exists_notMem_finset used.toFinset
  exact ⟨entry, fun member => new (List.mem_toFinset.mpr member)⟩

theorem handleAccept_registers {address : Nat} {fd : Int} (invariant : server.Invariant)
    (running : server.stopped = false)
    (queued : .handleAccept address (.connected fd) ∈ server.queue) : server.Registers := by
  obtain ⟨fresh, new⟩ := exists_fresh server.addresses
  obtain ⟨next, handled, _, _, _, _, registers⟩ := handleAccept_keeps invariant running queued new
  have enabled : server.Enabled (.run (.handleAccept address (.connected fd)) fresh) :=
    ⟨running, queued, new⟩
  refine ⟨next, .step (.initial rfl) trivial ⟨enabled, handled⟩, ?_⟩
  rw [(registers fd rfl).2]
  simp

theorem accepted_registers {address : Nat} {fd : Int} (invariant : server.Invariant)
    (running : server.stopped = false)
    (queued : .accepted address (.connected fd) ∈ server.queue) : server.Registers := by
  obtain ⟨fresh, new⟩ := exists_fresh server.addresses
  have enabled : server.Enabled (.run (.accepted address (.connected fd)) fresh) :=
    ⟨running, queued, new⟩
  refine Registers.of_step ?_ invariant enabled rfl rfl
  have waits : .handleAccept address (.connected fd) ∈
      ({ server with queue := server.queue.erase (.accepted address (.connected fd)) }.post
        (.handleAccept address (.connected fd))).queue := by simp [post]
  exact handleAccept_registers (accepted_keeps invariant running queued) running waits

theorem outstanding_registers {address : Nat} (invariant : server.Invariant)
    (running : server.stopped = false) (member : address ∈ server.accepting) :
    server.Registers := by
  obtain ⟨fd, unused⟩ := exists_fresh server.descriptors
  have enabled : server.Enabled (.connects address fd) := ⟨running, member, unused⟩
  refine Registers.of_step ?_ invariant enabled rfl rfl
  obtain ⟨next, stepped, completed⟩ := step_keeps invariant enabled
  obtain rfl := Except.ok.inj stepped
  have waits : .accepted address (.connected fd) ∈
      (server.complete address (.connected fd)).queue := by simp [complete, post]
  exact accepted_registers completed running waits

theorem startAccept_registers (invariant : server.Invariant) (running : server.stopped = false)
    (queued : .startAccept ∈ server.queue) : server.Registers := by
  obtain ⟨fresh, new⟩ := exists_fresh server.addresses
  have enabled : server.Enabled (.run .startAccept fresh) := ⟨running, queued, new⟩
  refine Registers.of_step ?_ invariant enabled rfl rfl
  have waits : fresh ∈ ({ server with queue := server.queue.erase .startAccept }.pStartAccept
      fresh).accepting := by simp [pStartAccept]
  exact outstanding_registers (startAccept_keeps invariant running queued new) running waits

/-- At its limit the server goes on when a handler is done. -/
theorem deferred_registers (invariant : server.Invariant) (running : server.stopped = false)
    (stored : server.connectionManager.allowMoreCallback = true)
    (positive : server.maxConnections ≠ 0) : server.Registers := by
  have full := (invariant.place running).full stored
  have limit := invariant.limit
  rw [places, Nat.max_eq_left (Nat.one_le_iff_ne_zero.mpr positive)] at limit
  obtain ⟨handler, member⟩ := List.exists_mem_of_length_pos
    (Nat.lt_of_lt_of_le (Nat.pos_of_ne_zero positive) full)
  have enabled : server.Enabled (.done handler) := ⟨running, member⟩
  obtain ⟨next, finished, kept, same, _, unchanged, _⟩ := done_keeps invariant member
  refine Registers.of_step ?_ invariant enabled finished unchanged
  refine startAccept_registers kept (same.trans running) ?_
  have fewer := ServerConnectionManager.length_without member
  have free : (server.connectionManager.without handler).connections.length <
      server.connectionManager.maxNumberOfConnections := by
    unfold maxConnections at limit
    omega
  simp only [TcpServer.done, invariant.sound.deregister member, if_pos (And.intro stored free)]
    at finished
  obtain rfl := Except.ok.inj finished
  simp [post]

/-- A server that cannot be stopped goes on to register a connection. -/
theorem registers_of_not_stoppable (invariant : server.Invariant) (running : server.stopped = false)
    (requested : server.terminateRequested = true) (unstoppable : ¬server.Stoppable) :
    server.pOnHeartbeat.Registers := by
  have kept := pOnHeartbeat_keeps invariant running
  simp only [pOnHeartbeat, requested, if_true] at kept ⊢
  have queue : ∀ {job}, job ∈ server.queue →
      job ∈ ({ server with heartbeat := .ended, terminateRequested := true }.acceptorCancel).queue :=
    fun member => List.mem_append_left _ member
  by_cases stored : server.connectionManager.allowMoreCallback = true
  · by_cases positive : server.maxConnections = 0
    · refine absurd ⟨fun job member => ?_, fun _ => positive⟩ unstoppable
      cases invariant.place running with
      | posted _ _ unstored => simp [unstored] at stored
      | outstanding _ _ unstored => simp [unstored] at stored
      | completed _ _ unstored => simp [unstored] at stored
      | deferred _ queued => simp [queued] at member
    · exact deferred_registers kept running stored positive
  · have waiting : ∃ job ∈ server.queue, ∀ err, job.result? ≠ some (.failed err) := by
      by_contra none
      push Not at none
      exact unstoppable ⟨none, fun present => absurd present stored⟩
    obtain ⟨job, member, successful⟩ := waiting
    cases job with
    | startAccept => exact startAccept_registers kept running (queue member)
    | accepted address result =>
        cases result with
        | connected fd => exact accepted_registers kept running (queue member)
        | failed err => exact absurd rfl (successful err)
    | handleAccept address result =>
        cases result with
        | connected fd => exact handleAccept_registers kept running (queue member)
        | failed err => exact absurd rfl (successful err)

/-- Once the heartbeat has run with the request to terminate, no further connection
is registered exactly when the accept was outstanding or had failed. -/
theorem termination_kept_iff {maxConnections : Nat}
    (reached : (runs maxConnections).Reaches Transition.unguarded server)
    (enabled : server.Enabled .heartbeat) (requested : server.terminateRequested = true) :
    server.pOnHeartbeat.RegistersNoMore ↔ server.Stoppable := by
  obtain ⟨invariant, _⟩ := reached_invariant reached
  constructor
  · intro nomore
    by_contra unstoppable
    obtain ⟨later, goes, more⟩ :=
      registers_of_not_stoppable invariant enabled.1 requested unstoppable
    exact more (nomore later goes)
  · intro stoppable
    exact (stoppable.cancelled invariant requested).registersNoMore

theorem follow_reached {maxConnections : Nat} {inputs : List Input}
    (followed : inputs.foldlM (Transition.attempt Transition.unguarded Enabled step)
      (listen maxConnections) = some server) :
    (runs maxConnections).Reaches Transition.unguarded server :=
  Transition.ofStep_follow (.initial rfl) followed

/-- Termination is requested while the first accept is outstanding. -/
theorem outstanding_accept_cancelled :
    ∃ server : TcpServer, (runs 1).Reaches Transition.unguarded server ∧
      server.accepting = [0] ∧ server.pOnHeartbeat.RegistersNoMore := by
  have reached := @follow_reached _ 1 [.run .startAccept 0, .terminate] rfl
  refine ⟨_, reached, rfl, (termination_kept_iff reached (by decide) rfl).mpr ⟨?_, ?_⟩⟩
  · intro job member
    cases member
  · intro stored
    cases stored

/-- Termination is requested while the only connection is active: its end starts
the next accept, and the heartbeat has run for the last time. -/
theorem deferred_accept_survives_termination :
    ∃ server : TcpServer, (runs 1).Reaches Transition.unguarded server ∧
      server.Enabled .heartbeat ∧ server.terminateRequested = true ∧
      ¬server.pOnHeartbeat.RegistersNoMore := by
  have reached := @follow_reached _ 1 [.run .startAccept 0, .connects 0 7,
    .run (.accepted 0 (.connected 7)) 1, .run (.handleAccept 0 (.connected 7)) 1, .terminate] rfl
  refine ⟨_, reached, by decide, rfl, fun nomore => ?_⟩
  obtain ⟨later, goes, more⟩ := registers_of_not_stoppable (reached_invariant reached).1 rfl rfl
    (fun stoppable => absurd (stoppable.unstored rfl) (by decide))
  exact more (nomore later goes)

end TcpServer

end Marvin.Server
