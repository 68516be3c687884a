import Mathlib.Logic.Function.Basic
import Marvin.Buffer.ContigBuffer
import Marvin.Connection.Timeout
import Marvin.Data.Transition

namespace Marvin.Connection

open Marvin.Data Marvin.Buffer

/-! # Tunnels

`marvin/connection/half_tunnel.cpp` and `tunnel_handler.cpp` over the reads and
writes of `connection.cpp`.  A half is named after the connection it reads; it
writes to the other one.  So each connection has its timeout and its reads in
one half and its writes in the other.

A read passes through several jobs: the completion of the socket read, the
handlers of the timeout, and two posted callbacks, of which the first sets the
size of the buffer.  The io_service runs all jobs in the order they are queued.
-/

inductive End where
  | downstream
  | upstream
deriving DecidableEq, Repr

def End.other : End → End
  | .downstream => .upstream
  | .upstream => .downstream

@[simp] theorem End.other_ne (side : End) : side.other ≠ side := by
  cases side <;> decide

structure ReadResult where
  err : ErrorType
  bytesTransfered : Nat
deriving DecidableEq, Repr

/-- The handlers `Connection::async_read` gives to its timeout: one cancels the
socket, the other posts the callback of the read. -/
inductive ReadHandler where
  | cancelSocket
  | postRead (result : ReadResult)
deriving DecidableEq, Repr

inductive TunnelJob where
  | read (job : Job ReadHandler ReadResult)
  /-- The callback of the overload of `async_read` for a buffer. -/
  | setSize (result : ReadResult)
  | handleRead (result : ReadResult)
  /-- The completion handler of `boost::asio::async_write`. -/
  | written (err : ErrorType)
  | handleWrite (err : ErrorType)
deriving DecidableEq, Repr

/-- How the writes of a half have fared: a write is ended early by an error that
the peer of the write end causes, or by a cancelled socket. -/
inductive Delivery where
  | fine
  | peerError (err : ErrorType)
  | aborted
deriving DecidableEq, Repr

/-- A half, with the timeout of its read end.  `writing` holds what the write end
has yet to take of an outstanding write, `done` the error reported to the
`TunnelHandler`; `received` and `sent` are all bytes taken from the read end and
given to the write end. -/
structure HalfTunnel where
  timed : Timed ReadHandler
  buffer : ContigBuffer
  writing : Option Bytes
  done : Option ErrorType
  received : Bytes
  sent : Bytes
  delivery : Delivery
deriving DecidableEq, Repr

namespace HalfTunnel

def new (timeout : Timeout ReadHandler) : HalfTunnel where
  timed := ⟨timeout, .idle⟩
  buffer := .ofStrategy .tunnel
  writing := none
  done := none
  received := []
  sent := []
  delivery := .fine

def withTimed (half : HalfTunnel)
    (change : Timed ReadHandler × List (Job ReadHandler ReadResult)) :
    HalfTunnel × List TunnelJob :=
  ({ half with timed := change.1 }, change.2.map .read)

def pStartRead (half : HalfTunnel) : HalfTunnel × List TunnelJob :=
  half.withTimed (half.timed.begin .cancelSocket)

def readFails (half : HalfTunnel) (err : ErrorType) : HalfTunnel × List TunnelJob :=
  half.withTimed (half.timed.complete ⟨err, 0⟩)

def receive (half : HalfTunnel) (data : Bytes) : HalfTunnel × List TunnelJob :=
  { half with
    buffer := half.buffer.receive data
    received := half.received ++ data }.withTimed (half.timed.complete ⟨.ok, data.length⟩)

/-- The write end takes some more bytes of the outstanding write, which completes
with the last of them. -/
def send (half : HalfTunnel) (rest : Bytes) (count : Nat) : HalfTunnel × List TunnelJob :=
  let half := { half with sent := half.sent ++ rest.take count }
  if rest.drop count = [] then ({ half with writing := none }, [.written .ok])
  else ({ half with writing := some (rest.drop count) }, [])

def writeFails (half : HalfTunnel) (err : ErrorType) (delivery : Delivery) :
    HalfTunnel × List TunnelJob :=
  ({ half with writing := none, delivery }, [.written err])

end HalfTunnel

structure TunnelHandler where
  halves : End → HalfTunnel
  queue : List (End × TunnelJob)
  firstErr : ErrorType
  /-- The errors `m_callback` was called with. -/
  callbacks : List ErrorType

namespace TunnelHandler

def act (tunnel : TunnelHandler) (side : End) (change : HalfTunnel × List TunnelJob) :
    TunnelHandler :=
  { tunnel with
    halves := Function.update tunnel.halves side change.1
    queue := tunnel.queue ++ change.2.map (Prod.mk side) }

def tryDone (tunnel : TunnelHandler) : TunnelHandler :=
  if (tunnel.halves .upstream).done.isSome ∧ (tunnel.halves .downstream).done.isSome then
    { tunnel with callbacks := tunnel.callbacks ++ [tunnel.firstErr] }
  else tunnel

/-- The callback that `start` gives to each half. -/
def onHalfDone (tunnel : TunnelHandler) (side : End) (err : ErrorType) : TunnelHandler :=
  let tunnel := tunnel.act side ({ tunnel.halves side with done := some err }, [])
  let tunnel :=
    if tunnel.firstErr = .ok ∧ err ≠ .ok then { tunnel with firstErr := err } else tunnel
  tunnel.tryDone

def pHandleRead (tunnel : TunnelHandler) (side : End) (result : ReadResult) : TunnelHandler :=
  let half := tunnel.halves side
  if result.err = .ok then tunnel.act side ({ half with writing := some half.buffer.contents }, [])
  else tunnel.onHalfDone side result.err

def pHandleWrite (tunnel : TunnelHandler) (side : End) (err : ErrorType) : TunnelHandler :=
  if err = .ok then tunnel.act side (tunnel.halves side).pStartRead
  else tunnel.onHalfDone side err

/-- `tcp::socket::cancel` on a connection aborts the read of the half that reads
it and the write of the half that writes to it. -/
def socketCancel (tunnel : TunnelHandler) (side : End) : TunnelHandler :=
  let tunnel :=
    if (tunnel.halves side).timed.phase = .operating then
      tunnel.act side ((tunnel.halves side).readFails .operationAborted)
    else tunnel
  if (tunnel.halves side.other).writing.isSome then
    tunnel.act side.other ((tunnel.halves side.other).writeFails .operationAborted .aborted)
  else tunnel

def runJob (tunnel : TunnelHandler) (side : End) : TunnelJob → Except Fault TunnelHandler
  | .read (.timer err) => do
      let half := tunnel.halves side
      return tunnel.act side (half.withTimed (← half.timed.handleTimer err))
  | .read (.operation result) => do
      let half := tunnel.halves side
      return tunnel.act side (half.withTimed (← half.timed.handleOperation (.postRead result)))
  | .read (.run .cancelSocket) => return tunnel.socketCancel side
  | .read (.run (.postRead result)) =>
      let half := tunnel.halves side
      return tunnel.act side
        ({ half with timed := { half.timed with phase := .idle } }, [.setSize result])
  | .setSize result =>
      let half := tunnel.halves side
      return tunnel.act side
        ({ half with buffer := half.buffer.setSize result.bytesTransfered }, [.handleRead result])
  | .handleRead result => return tunnel.pHandleRead side result
  | .written err => return tunnel.act side (tunnel.halves side, [.handleWrite err])
  | .handleWrite err => return tunnel.pHandleWrite side err

inductive Input where
  | receive (side : End) (data : Bytes)
  | readError (side : End) (err : ErrorType)
  | send (side : End) (count : Nat)
  | writeError (side : End) (err : ErrorType)
  | expire (side : End)
  | run
deriving DecidableEq, Repr

def Enabled (tunnel : TunnelHandler) : Input → Prop
  | .receive side data => (tunnel.halves side).timed.phase = .operating ∧ data ≠ [] ∧
      data.length ≤ (tunnel.halves side).buffer.capacity
  | .readError side err => (tunnel.halves side).timed.phase = .operating ∧ err ≠ .ok
  | .send side _ => (tunnel.halves side).writing ≠ none
  | .writeError side err => (tunnel.halves side).writing ≠ none ∧ err ≠ .ok
  | .expire side => (tunnel.halves side).timed.timeout.waiting = true
  | .run => tunnel.queue ≠ []

instance (tunnel : TunnelHandler) : DecidablePred tunnel.Enabled
  | .receive _ data => inferInstanceAs (Decidable (_ ∧ data ≠ [] ∧ data.length ≤ _))
  | .readError _ err => inferInstanceAs (Decidable (_ ∧ err ≠ .ok))
  | .send side _ => inferInstanceAs (Decidable ((tunnel.halves side).writing ≠ none))
  | .writeError _ err => inferInstanceAs (Decidable (_ ∧ err ≠ .ok))
  | .expire side =>
      inferInstanceAs (Decidable ((tunnel.halves side).timed.timeout.waiting = true))
  | .run => inferInstanceAs (Decidable (tunnel.queue ≠ []))

def step (tunnel : TunnelHandler) : Input → Except Fault TunnelHandler
  | .receive side data => return tunnel.act side ((tunnel.halves side).receive data)
  | .readError side err => return tunnel.act side ((tunnel.halves side).readFails err)
  | .send side count =>
      match (tunnel.halves side).writing with
      | none => return tunnel
      | some rest => return tunnel.act side ((tunnel.halves side).send rest count)
  | .writeError side err =>
      return tunnel.act side ((tunnel.halves side).writeFails err (.peerError err))
  | .expire side =>
      return tunnel.act side
        ((tunnel.halves side).withTimed (tunnel.halves side).timed.expire)
  | .run =>
      match tunnel.queue with
      | [] => return tunnel
      | (side, job) :: queue => { tunnel with queue }.runJob side job

def new (timeouts : End → Timeout ReadHandler) : TunnelHandler where
  halves side := .new (timeouts side)
  queue := []
  firstErr := .ok
  callbacks := []

/-- `start` begins the reads of both halves, the downstream one first. -/
def start (tunnel : TunnelHandler) : TunnelHandler :=
  let tunnel := tunnel.act .upstream (tunnel.halves .upstream).pStartRead
  tunnel.act .downstream (tunnel.halves .downstream).pStartRead

/-- A tunnel is started on connections without a pending wait. -/
def Initial (tunnel : TunnelHandler) : Prop :=
  ∃ timeouts : End → Timeout ReadHandler,
    (∀ side, (timeouts side).waiting = false) ∧ tunnel = (new timeouts).start

def runs : Transition TunnelHandler Input :=
  .ofStep Initial Enabled step

end TunnelHandler

end Marvin.Connection
