import Marvin.Data.Heap
import Marvin.Data.Transition
import Marvin.Fault

namespace Marvin.Client

open Marvin.Data

/-! # Connecting

The connecting half of `marvin/client/client.cpp`.  A client takes itself for
connected when `m_conn_shared_ptr` is set; `async_connect` sets it before the
socket has begun to connect, and only `close` resets it.
-/

inductive SocketStatus where
  | connecting
  | connected
  | failed
  | closed
deriving DecidableEq, Repr

/-- What the end of a connect is handed to: the callback of `async_connect`, or
the one of `p_internal_connect`. -/
inductive Continuation where
  | report
  | write
deriving DecidableEq, Repr

inductive Happening where
  /-- A request is written, on a socket that then is in the given state. -/
  | written (socket : Nat) (status : Option SocketStatus)
  | connectCallback (error : ErrorType)
  | responseCallback (error : ErrorType)
deriving DecidableEq, Repr

structure ClientState where
  /-- Every socket that was made, by its number. -/
  sockets : List SocketStatus
  /-- `m_conn_shared_ptr`. -/
  conn : Option Nat
  /-- The connect in progress. -/
  pending : Option (Nat × Continuation)
  log : List Happening
deriving DecidableEq, Repr

/-- A call of the client, or the end of the connect in progress. -/
inductive Input where
  | asyncConnect
  | asyncWrite
  | connectEnds (error : ErrorType)
  | close
deriving DecidableEq, Repr

namespace ClientState

def new : ClientState := ⟨[], none, none, []⟩

def asyncConnect (client : ClientState) (continuation : Continuation) : ClientState × Option Fault :=
  match client.conn with
  | some _ => (client, some .connectionPresent)
  | none =>
      ({ client with
        sockets := client.sockets ++ [.connecting]
        conn := some client.sockets.length
        pending := some (client.sockets.length, continuation) }, none)

/-- The writer and the reader of a request are made on `m_conn_shared_ptr`. -/
def pInternalWrite (client : ClientState) : ClientState :=
  match client.conn with
  | some socket => { client with log := client.log ++ [.written socket client.sockets[socket]?] }
  | none => client

def pAsyncWrite (client : ClientState) : ClientState × Option Fault :=
  match client.conn with
  | some _ => (client.pInternalWrite, none)
  | none => client.asyncConnect .write

def connectEnds (client : ClientState) (socket : Nat) (continuation : Continuation)
    (error : ErrorType) : ClientState :=
  let ended : ClientState := { client with
    sockets := client.sockets.set socket (if error = .ok then .connected else .failed)
    pending := none }
  match continuation with
  | .report => { ended with log := ended.log ++ [.connectCallback error] }
  | .write =>
      if error = .ok then ended.pInternalWrite
      else { ended with log := ended.log ++ [.responseCallback error] }

/-- A client is closed when it has a socket and no connect is in progress: the
handlers of a connect hold the socket by a bare pointer. -/
def perform (client : ClientState) : Input → Option (ClientState × Option Fault)
  | .asyncConnect => some (client.asyncConnect .report)
  | .asyncWrite => some client.pAsyncWrite
  | .connectEnds error =>
      client.pending.map fun (socket, continuation) =>
        (client.connectEnds socket continuation error, none)
  | .close =>
      if client.pending = none then
        client.conn.map fun socket =>
          ({ client with sockets := client.sockets.set socket .closed, conn := none }, none)
      else none

def runs : Transition ClientState Input where
  initial client := client = new
  step client input next := ∃ thrown, client.perform input = some (next, thrown)

/-- A connect that ends in an error leaves the client not connected, and requests
are written on connected sockets only. -/
def Upheld (client next : ClientState) (input : Input) : Prop :=
  (∀ error, input = .connectEnds error → error ≠ .ok → next.conn = none) ∧
    ∀ socket status, .written socket status ∈ next.log →
      .written socket status ∈ client.log ∨ status = some .connected

/-- No connect ends in an error, and no request is written while one is in
progress. -/
def Spared (client : ClientState) : Input → Prop
  | .connectEnds error => error = .ok
  | .asyncWrite => client.pending = none
  | .asyncConnect | .close => True

/-- The client has a socket only while it connects or is connected. -/
structure Invariant (client : ClientState) : Prop where
  connecting {socket : Nat} {continuation : Continuation} :
    client.pending = some (socket, continuation) →
      client.conn = some socket ∧ client.sockets[socket]? = some .connecting
  connected {socket : Nat} : client.pending = none → client.conn = some socket →
    client.sockets[socket]? = some .connected
  written {socket : Nat} {status : Option SocketStatus} :
    .written socket status ∈ client.log → status = some .connected

variable {client next : ClientState}

theorem new_invariant : new.Invariant :=
  ⟨nofun, nofun, nofun⟩

theorem asyncConnect_of_none (free : client.conn = none) (continuation : Continuation) :
    client.asyncConnect continuation = ({ client with
      sockets := client.sockets ++ [.connecting]
      conn := some client.sockets.length
      pending := some (client.sockets.length, continuation) }, none) := by
  rw [asyncConnect, free]

theorem asyncConnect_of_some {socket : Nat} (taken : client.conn = some socket)
    (continuation : Continuation) :
    client.asyncConnect continuation = (client, some .connectionPresent) := by
  rw [asyncConnect, taken]

theorem Invariant.asyncConnect (invariant : client.Invariant) (continuation : Continuation) :
    (client.asyncConnect continuation).1.Invariant := by
  cases taken : client.conn with
  | some socket =>
      rw [asyncConnect_of_some taken]
      exact invariant
  | none =>
      rw [asyncConnect_of_none taken]
      refine ⟨?_, nofun, invariant.written⟩
      intro socket continuation same
      cases same
      exact ⟨rfl, by simp⟩

theorem pInternalWrite_of_some {socket : Nat} (taken : client.conn = some socket) :
    client.pInternalWrite =
      { client with log := client.log ++ [.written socket client.sockets[socket]?] } := by
  rw [pInternalWrite, taken]

theorem Invariant.log (invariant : client.Invariant) {happening : Happening}
    (fine : ∀ socket status, happening = .written socket status → status = some .connected) :
    Invariant { client with log := client.log ++ [happening] } := by
  refine ⟨invariant.connecting, invariant.connected, ?_⟩
  intro socket status member
  rcases List.mem_append.mp member with old | new
  · exact invariant.written old
  · exact fine socket status (List.mem_singleton.mp new).symm

theorem Invariant.pInternalWrite (invariant : client.Invariant) (settled : client.pending = none) :
    client.pInternalWrite.Invariant := by
  cases taken : client.conn with
  | none =>
      rw [ClientState.pInternalWrite, taken]
      exact invariant
  | some socket =>
      rw [pInternalWrite_of_some taken]
      apply invariant.log
      intro _ _ same
      cases same
      exact invariant.connected settled taken

theorem Invariant.connectEnds (invariant : client.Invariant) {socket : Nat}
    {continuation : Continuation} (begun : client.pending = some (socket, continuation)) :
    (client.connectEnds socket continuation .ok).Invariant := by
  obtain ⟨taken, status⟩ := invariant.connecting begun
  have done : Invariant { client with
      sockets := client.sockets.set socket .connected
      pending := none } := by
    refine ⟨nofun, ?_, invariant.written⟩
    intro other _ same
    obtain rfl : socket = other := Option.some.inj (taken.symm.trans same)
    exact getElem?_set_found status _
  cases continuation with
  | report => exact done.log (fun _ _ => Happening.noConfusion)
  | write => exact done.pInternalWrite rfl

theorem Invariant.step (invariant : client.Invariant) {input : Input} {thrown : Option Fault}
    (spared : client.Spared input) (performed : client.perform input = some (next, thrown)) :
    next.Invariant := by
  cases input with
  | asyncConnect =>
      obtain rfl := congrArg Prod.fst (Option.some.inj performed)
      exact invariant.asyncConnect .report
  | asyncWrite =>
      obtain rfl := congrArg Prod.fst (Option.some.inj performed)
      cases taken : client.conn with
      | none =>
          rw [pAsyncWrite, taken]
          exact invariant.asyncConnect .write
      | some socket =>
          rw [pAsyncWrite, taken]
          exact invariant.pInternalWrite spared
  | connectEnds error =>
      obtain ⟨⟨socket, continuation⟩, begun, performed⟩ := Option.map_eq_some_iff.mp performed
      cases performed
      obtain rfl : error = .ok := spared
      exact invariant.connectEnds begun
  | close =>
      rw [perform] at performed
      split at performed
      · next idle =>
          obtain ⟨socket, taken, performed⟩ := Option.map_eq_some_iff.mp performed
          cases performed
          refine ⟨?_, nofun, invariant.written⟩
          intro other continuation begun
          rw [idle] at begun
          cases begun
      · cases performed

theorem reached_invariant (reached : runs.Reaches Spared client) : client.Invariant := by
  refine reached.invariant ?_ ?_
  · intro client same
    subst same
    exact new_invariant
  · intro client input next invariant spared given
    obtain ⟨thrown, performed⟩ := given
    exact invariant.step spared performed

theorem connectEnds_conn (client : ClientState) (socket : Nat) (continuation : Continuation)
    (error : ErrorType) : (client.connectEnds socket continuation error).conn = client.conn := by
  cases continuation with
  | report => rfl
  | write =>
      unfold connectEnds pInternalWrite
      dsimp only
      split
      · split <;> simp_all
      · rfl

/-- Where an operation upholds what is expected of it, the guard lets it pass. -/
theorem Invariant.spared_of_upheld (invariant : client.Invariant) {input : Input}
    {thrown : Option Fault} (performed : client.perform input = some (next, thrown))
    (upheld : client.Upheld next input) : client.Spared input := by
  cases input with
  | asyncConnect => trivial
  | close => trivial
  | asyncWrite =>
      cases begun : client.pending with
      | none => exact begun
      | some connect =>
          obtain ⟨socket, continuation⟩ := connect
          obtain ⟨taken, status⟩ := invariant.connecting begun
          obtain rfl := congrArg Prod.fst (Option.some.inj performed)
          have logged : .written socket (some .connecting) ∈ client.pAsyncWrite.1.log := by
            rw [pAsyncWrite, taken]
            dsimp only
            rw [pInternalWrite_of_some taken, status]
            simp
          rcases upheld.2 socket _ logged with old | connected
          · cases invariant.written old
          · cases connected
  | connectEnds error =>
      obtain ⟨⟨socket, continuation⟩, begun, performed⟩ := Option.map_eq_some_iff.mp performed
      obtain ⟨taken, _⟩ := invariant.connecting begun
      cases performed
      by_cases succeeded : error = .ok
      · exact succeeded
      · have free := upheld.1 error rfl succeeded
        rw [connectEnds_conn, taken] at free
        cases free

theorem Invariant.upheld (invariant : client.Invariant) {input : Input} {thrown : Option Fault}
    (spared : client.Spared input) (performed : client.perform input = some (next, thrown)) :
    client.Upheld next input := by
  refine ⟨?_, fun socket status logged => .inr ((invariant.step spared performed).written logged)⟩
  intro error same failed
  subst same
  exact absurd spared failed

/-- In a run in which no connect ends in an error and no request is written while
one is in progress, requests are written on connected sockets only and
`async_connect` throws only for a client that connects or is connected; and an
operation upholds what is expected of it exactly when it is of that kind. -/
theorem spared_runs_write_connected (reached : runs.Reaches Spared client) :
    (∀ socket status, .written socket status ∈ client.log → status = some .connected) ∧
      (∀ socket ∈ client.conn, client.sockets[socket]? = some .connecting ∨
        client.sockets[socket]? = some .connected) ∧
      (client.conn = none → (client.asyncConnect .report).2 = none ∧
        ∃ socket, client.pAsyncWrite.1.pending = some (socket, .write)) ∧
      ∀ input next thrown, client.perform input = some (next, thrown) →
        (client.Upheld next input ↔ client.Spared input) := by
  have invariant := reached_invariant reached
  refine ⟨fun _ _ => invariant.written, fun socket taken => ?_, fun free => ?_, ?_⟩
  · cases begun : client.pending with
    | none => exact .inr (invariant.connected begun taken)
    | some connect =>
        obtain ⟨same, status⟩ := invariant.connecting (begun : _ = some (connect.1, connect.2))
        obtain rfl : connect.1 = socket := Option.some.inj (same.symm.trans taken)
        exact .inl status
  · rw [pAsyncWrite, free]
    dsimp only
    rw [asyncConnect_of_none free, asyncConnect_of_none free]
    exact ⟨rfl, _, rfl⟩
  · intro input next thrown performed
    constructor
    · exact invariant.spared_of_upheld performed
    · intro spared
      exact invariant.upheld spared performed

theorem connected_client_writes :
    ∃ client, runs.Reaches Spared client ∧ .written 0 (some .connected) ∈ client.log ∧
      ∀ socket status, .written socket status ∈ client.log → status = some .connected := by
  have start : runs.Reaches Spared new := .initial rfl
  have begun := @Transition.Reaches.step _ _ _ _ _ _ Input.asyncWrite start rfl ⟨none, rfl⟩
  have done := @Transition.Reaches.step _ _ _ _ _ _ (Input.connectEnds .ok) begun rfl ⟨none, rfl⟩
  exact ⟨_, done, by decide, (spared_runs_write_connected done).1⟩

/-- After a connect that failed the client still has its socket: the next
`async_connect` throws and the next request is written on it. -/
theorem failed_connect_keeps_socket :
    ∃ client, runs.Reaches Transition.unguarded client ∧
      client.log = [.connectCallback (.other 111)] ∧ client.conn = some 0 ∧
      (client.asyncConnect .report).2 = some .connectionPresent ∧
      .written 0 (some .failed) ∈ client.pAsyncWrite.1.log := by
  have start : runs.Reaches Transition.unguarded new := .initial rfl
  have begun := @Transition.Reaches.step _ _ _ _ _ _ Input.asyncConnect start trivial ⟨none, rfl⟩
  have failed := @Transition.Reaches.step _ _ _ _ _ _ (Input.connectEnds (.other 111)) begun trivial
    ⟨none, rfl⟩
  exact ⟨_, failed, rfl, rfl, rfl, by decide⟩

end ClientState

end Marvin.Client
