import Marvin.Data.Transition
import Marvin.Server.ServerConnectionManager

namespace Marvin.Server

open Marvin.Data

/-! # The server

`marvin/server/tcp_server.cpp` with its connection manager, on one io_service.
A handler that waits for a connection is named by its address.  The completion
of an accept runs a function of `Connection` first, which posts the call of
`p_handle_accept`.  The acceptor is opened by `listen`; the statements that would
close it come after a `return`.
-/

inductive AcceptResult where
  | connected (fd : Int)
  | failed (err : ErrorType)
deriving DecidableEq, Repr

/-- What the queue of the io_service holds: `p_start_accept`, the completion of
an accept, and the posted call of `p_handle_accept`. -/
inductive ServerJob where
  | startAccept
  | accepted (address : Nat) (result : AcceptResult)
  | handleAccept (address : Nat) (result : AcceptResult)
deriving DecidableEq, Repr

namespace ServerJob

/-- The handler that a job keeps alive. -/
def address? : ServerJob → Option Nat
  | .startAccept => none
  | .accepted address _ => some address
  | .handleAccept address _ => some address

def result? : ServerJob → Option AcceptResult
  | .startAccept => none
  | .accepted _ result => some result
  | .handleAccept _ result => some result

/-- The descriptor of a connection that is not registered yet. -/
def fd? (job : ServerJob) : Option Int :=
  match job.result? with
  | some (.connected fd) => some fd
  | _ => none

end ServerJob

/-- The wait of the heartbeat timer is pending, its handler is in the queue, or
it was not started again. -/
inductive Heartbeat where
  | waiting
  | queued
  | ended
deriving DecidableEq, Repr

structure TcpServer where
  connectionManager : ServerConnectionManager
  isOpen : Bool
  /-- The handlers whose accept is outstanding. -/
  accepting : List Nat
  queue : List ServerJob
  heartbeat : Heartbeat
  terminateRequested : Bool
  /-- `m_io.stop()` was called. -/
  stopped : Bool
  /-- All handlers that were ever registered. -/
  registered : List ConnectionHandler
deriving DecidableEq, Repr

namespace TcpServer

def post (server : TcpServer) (job : ServerJob) : TcpServer :=
  { server with queue := server.queue ++ [job] }

/-- `new ConnectionHandler` returns the given address. -/
def pStartAccept (server : TcpServer) (address : Nat) : TcpServer :=
  { server with accepting := server.accepting ++ [address] }

/-- `fresh` is the address of the handler that an accept started here waits with.
`serve` only starts the handler. -/
def pHandleAccept (server : TcpServer) (address : Nat) (result : AcceptResult) (fresh : Nat) :
    Except Fault TcpServer := do
  if !server.isOpen then return server
  match result with
  | .connected fd =>
      let handler : ConnectionHandler := ⟨address, fd⟩
      let manager ← server.connectionManager.registerConnectionHandler handler
      let (manager, allowed) ← manager.allowAnotherConnection
      let server := { server with
        connectionManager := manager, registered := server.registered ++ [handler] }
      return if allowed then server.pStartAccept fresh else server
  | .failed _ => return { server with stopped := true }

def pStartHeartbeat (server : TcpServer) : TcpServer :=
  { server with heartbeat := .waiting }

/-- `acceptor::cancel` completes every outstanding accept with an error. -/
def acceptorCancel (server : TcpServer) : TcpServer :=
  { server with
    accepting := []
    queue := server.queue ++
      server.accepting.map (fun address => .accepted address (.failed .operationAborted)) }

def pOnHeartbeat (server : TcpServer) : TcpServer :=
  let server := { server with heartbeat := .ended }
  if server.terminateRequested then server.acceptorCancel else server.pStartHeartbeat

def terminate (server : TcpServer) : TcpServer :=
  { server with
    terminateRequested := true
    heartbeat := if server.heartbeat = .waiting then .queued else server.heartbeat }

/-- The callback that `ConnectionHandler::serve` passes to its request handler. -/
def done (server : TcpServer) (handler : ConnectionHandler) : Except Fault TcpServer := do
  let (manager, posted) ← server.connectionManager.pDeregister handler
  let server := { server with connectionManager := manager }
  return if posted then server.post .startAccept else server

def runJob (server : TcpServer) (fresh : Nat) : ServerJob → Except Fault TcpServer
  | .startAccept => return server.pStartAccept fresh
  | .accepted address result => return server.post (.handleAccept address result)
  | .handleAccept address result => server.pHandleAccept address result fresh

inductive Input where
  | connects (address : Nat) (fd : Int)
  | acceptFails (address : Nat) (err : ErrorType)
  /-- A queued job is run; a handler made by it gets the given address. -/
  | run (job : ServerJob) (fresh : Nat)
  | done (handler : ConnectionHandler)
  | expires
  | heartbeat
  | terminate
deriving DecidableEq, Repr

/-- The handlers that exist. -/
def addresses (server : TcpServer) : List Nat :=
  server.connectionManager.addresses ++ server.accepting ++
    server.queue.filterMap ServerJob.address?

def descriptors (server : TcpServer) : List Int :=
  server.connectionManager.descriptors ++ server.queue.filterMap ServerJob.fd?

/-- The operating system hands out no descriptor that is open, the allocator no
address in use, and a registered handler is done once. -/
def Enabled (server : TcpServer) : Input → Prop
  | .connects address fd =>
      server.stopped = false ∧ address ∈ server.accepting ∧ fd ∉ server.descriptors
  | .acceptFails address _ => server.stopped = false ∧ address ∈ server.accepting
  | .run job fresh => server.stopped = false ∧ job ∈ server.queue ∧ fresh ∉ server.addresses
  | .done handler => server.stopped = false ∧ handler ∈ server.connectionManager.connections
  | .expires => server.stopped = false ∧ server.heartbeat = .waiting
  | .heartbeat => server.stopped = false ∧ server.heartbeat = .queued
  | .terminate => server.stopped = false

instance (server : TcpServer) : DecidablePred server.Enabled
  | .connects address fd => inferInstanceAs (Decidable
      (server.stopped = false ∧ address ∈ server.accepting ∧ fd ∉ server.descriptors))
  | .acceptFails address _ => inferInstanceAs (Decidable
      (server.stopped = false ∧ address ∈ server.accepting))
  | .run job fresh => inferInstanceAs (Decidable
      (server.stopped = false ∧ job ∈ server.queue ∧ fresh ∉ server.addresses))
  | .done handler => inferInstanceAs (Decidable
      (server.stopped = false ∧ handler ∈ server.connectionManager.connections))
  | .expires => inferInstanceAs (Decidable (server.stopped = false ∧ server.heartbeat = .waiting))
  | .heartbeat => inferInstanceAs (Decidable (server.stopped = false ∧ server.heartbeat = .queued))
  | .terminate => inferInstanceAs (Decidable (server.stopped = false))

def complete (server : TcpServer) (address : Nat) (result : AcceptResult) : TcpServer :=
  { server with accepting := server.accepting.erase address }.post (.accepted address result)

def step (server : TcpServer) : Input → Except Fault TcpServer
  | .connects address fd => return server.complete address (.connected fd)
  | .acceptFails address err => return server.complete address (.failed err)
  | .run job fresh => { server with queue := server.queue.erase job }.runJob fresh job
  | .done handler => server.done handler
  | .expires => return { server with heartbeat := .queued }
  | .heartbeat => return server.pOnHeartbeat
  | .terminate => return server.terminate

/-- `listen`: the acceptor is open, the heartbeat runs and `p_start_accept` is
posted. -/
def listen (maxConnections : Nat) : TcpServer where
  connectionManager := .new maxConnections
  isOpen := true
  accepting := []
  queue := [.startAccept]
  heartbeat := .waiting
  terminateRequested := false
  stopped := false
  registered := []

def runs (maxConnections : Nat) : Transition TcpServer Input :=
  .ofStep (· = listen maxConnections) Enabled step

end TcpServer

end Marvin.Server
