import Marvin.Fault
import Marvin.Data.Bytes

namespace Marvin

open Marvin.Data

/-! # Securing a connection

The part of `marvin/connection/connection.cpp` that connects a socket and puts
TLS on it.  Of OpenSSL the model has what decides which peers a handshake
accepts: `SSL_new`, run by the constructor of `ssl::stream`, copies the verify
mode and the verify parameters of the context, and later changes of the context
do not reach the copy.  The timeouts around a connect are left out; they call
the next function once.
-/

inductive Mode where
  | notSecure
  | secureClient
  | secureServer
deriving DecidableEq, Repr

/-- `X509_VERIFY_PARAM`. -/
structure VerifyParam where
  crlCheck : Bool
  host : Option Bytes
deriving DecidableEq, Repr

namespace VerifyParam

def new : VerifyParam := ⟨false, none⟩

/-- An empty name clears the host, and names are then not checked. -/
def set1Host (param : VerifyParam) (name : Bytes) : VerifyParam :=
  { param with host := if name = [] then none else some name }

end VerifyParam

/-- `SSL_CTX`. -/
structure SslContext where
  verifyPeer : Bool
  param : VerifyParam
deriving DecidableEq, Repr

def SslContext.new : SslContext := ⟨false, .new⟩

/-- The `SSL` object of an `ssl::stream`. -/
structure SslStream where
  verifyPeer : Bool
  param : VerifyParam
  serverName : Option Bytes
  handshaken : Bool
deriving DecidableEq, Repr

def SslStream.ofContext (context : SslContext) : SslStream :=
  ⟨context.verifyPeer, context.param, none, false⟩

structure Connection where
  mode : Mode
  scheme : Bytes
  server : Bytes
  port : Bytes
  sslContext : Option SslContext
  sslStream : Option SslStream
  /-- `m_server_certificate` is set. -/
  serverCertificate : Bool
deriving DecidableEq, Repr

/-- How a connect goes: what the resolver returns, how the attempt at each of its
endpoints ends, and how the handshake ends if there is one. -/
structure ConnectCourse where
  resolved : ErrorType
  endpoints : List ErrorType
  handshake : ErrorType
deriving DecidableEq, Repr

namespace Connection

def ofServer (scheme server port : Bytes) : Connection where
  mode := .notSecure
  scheme := scheme
  server := server
  port := port
  sslContext := none
  sslStream := none
  serverCertificate := false

def becomeSecureClient (connection : Connection) : Except Fault Connection := do
  if connection.mode ≠ .notSecure then throw .alreadySecured
  let context := { SslContext.new with verifyPeer := true }
  let stream := { SslStream.ofContext context with serverName := some connection.server }
  let param := { VerifyParam.new with crlCheck := true }
  let param := param.set1Host connection.server
  return { connection with
    mode := .secureClient
    sslContext := some { context with param }
    sslStream := some stream }

def becomeSecureServer (connection : Connection) : Except Fault Connection := do
  if connection.mode ≠ .notSecure then throw .alreadySecured
  return { connection with
    mode := .secureServer
    sslContext := some .new
    sslStream := some (.ofContext .new) }

def pStartHandshake (connection : Connection) : Except Fault Connection :=
  if connection.mode = .notSecure then throw .invalidHandshakeType else return connection

/-- The error is what the connect callback is called with. -/
def pHandleHandshake (connection : Connection) (err : ErrorType) : Connection × ErrorType :=
  if err = .ok then
    ({ connection with
      sslStream := connection.sslStream.map (fun stream => { stream with handshaken := true })
      serverCertificate := connection.serverCertificate || connection.mode == .secureClient }, err)
  else (connection, err)

def pHandleConnect (handshake : ErrorType) (connection : Connection) :
    ErrorType → List ErrorType → Except Fault (Connection × ErrorType)
  | .ok, _ =>
      if connection.mode = .notSecure then return (connection, .ok)
      else do
        let connection ← connection.pStartHandshake
        return connection.pHandleHandshake handshake
  | _, next :: rest => pHandleConnect handshake connection next rest
  | err, [] => return (connection, err)

def hostUnreachable : ErrorType := .other 113

/-- `async_connect`, up to the call of its callback. -/
def asyncConnect (connection : Connection) (course : ConnectCourse) :
    Except Fault (Connection × ErrorType) :=
  if course.resolved ≠ .ok then return (connection, course.resolved)
  else
    match course.endpoints with
    | [] => return (connection, hostUnreachable)
    | first :: rest => pHandleConnect course.handshake connection first rest

def getServerCertificate (connection : Connection) : Except Fault Unit :=
  if connection.serverCertificate then return () else throw .noServerCertificate

/-- A client that is secured as `become_secure_client` leaves it. -/
structure SecuredClient (connection : Connection) : Prop where
  mode : connection.mode = .secureClient
  stream : ∃ stream, connection.sslStream = some stream ∧ stream.verifyPeer = true ∧
    stream.param.host = none

def Handshaken (connection : Connection) : Prop :=
  ∃ stream, connection.sslStream = some stream ∧ stream.handshaken = true

/-- The peer was asked for a certificate of the given host: the connection is a
client, its handshake has succeeded, and the object that performed it verifies
the peer and the name. -/
structure ChecksHost (connection : Connection) (host : Bytes) : Prop where
  mode : connection.mode = .secureClient
  stream : ∃ stream, connection.sslStream = some stream ∧ stream.handshaken = true ∧
    stream.verifyPeer = true ∧ stream.param.host = some host

variable {connection after : Connection}

theorem becomeSecureClient_ok (plain : connection.mode = .notSecure) :
    ∃ after, connection.becomeSecureClient = .ok after ∧ after.SecuredClient := by
  refine ⟨_, by simp [becomeSecureClient, plain]; rfl, rfl, _, rfl, rfl, rfl⟩

theorem becomeSecureClient_secured (done : connection.becomeSecureClient = .ok after) :
    after.SecuredClient := by
  by_cases plain : connection.mode = .notSecure
  · obtain ⟨made, same, secured⟩ := becomeSecureClient_ok plain
    obtain rfl := Except.ok.inj (same.symm.trans done)
    exact secured
  · simp [becomeSecureClient, plain, bind, Except.bind, throw, throwThe, MonadExceptOf.throw] at done

theorem becomeSecureClient_server (done : connection.becomeSecureClient = .ok after) :
    after.scheme = connection.scheme ∧ after.server = connection.server := by
  unfold becomeSecureClient at done
  by_cases plain : connection.mode = .notSecure
  · simp only [plain, bind, Except.bind, pure, Except.pure, ne_eq, not_true_eq_false, if_false,
      Except.ok.injEq] at done
    subst done
    exact ⟨rfl, rfl⟩
  · simp [plain, bind, Except.bind, throw, throwThe, MonadExceptOf.throw] at done

theorem becomeSecureServer_ok (plain : connection.mode = .notSecure) :
    ∃ after, connection.becomeSecureServer = .ok after ∧ after.mode = .secureServer :=
  ⟨_, by simp [becomeSecureServer, plain]; rfl, rfl⟩

theorem pStartHandshake_ok (secure : connection.mode ≠ .notSecure) :
    connection.pStartHandshake = .ok connection := by
  rw [pStartHandshake, if_neg secure]
  rfl

theorem pHandleHandshake_secured (secured : connection.SecuredClient) (err : ErrorType) :
    (connection.pHandleHandshake err).1.SecuredClient ∧
      ((connection.pHandleHandshake err).2 = .ok →
        (connection.pHandleHandshake err).1.Handshaken ∧
          (connection.pHandleHandshake err).1.serverCertificate = true) := by
  obtain ⟨mode, stream, present, verifies, unnamed⟩ := secured
  by_cases fine : err = .ok
  · rw [pHandleHandshake, if_pos fine]
    refine ⟨⟨mode, { stream with handshaken := true }, by simp [present], verifies, unnamed⟩,
      fun _ => ⟨⟨{ stream with handshaken := true }, by simp [present], rfl⟩, by simp [mode]⟩⟩
  · rw [pHandleHandshake, if_neg fine]
    exact ⟨⟨mode, stream, present, verifies, unnamed⟩, fun ok => absurd ok fine⟩

theorem pHandleHandshake_mode (connection : Connection) (err : ErrorType) :
    (connection.pHandleHandshake err).1.mode = connection.mode := by
  unfold pHandleHandshake
  split <;> rfl

theorem pHandleHandshake_err (connection : Connection) (err : ErrorType) :
    (connection.pHandleHandshake err).2 = err := by
  unfold pHandleHandshake
  split <;> rfl

theorem pHandleConnect_mode (handshake : ErrorType) (connection : Connection) (err : ErrorType)
    (rest : List ErrorType) :
    ∃ after result, pHandleConnect handshake connection err rest = .ok (after, result) ∧
      after.mode = connection.mode := by
  fun_induction pHandleConnect handshake connection err rest with
  | case1 => exact ⟨connection, _, rfl, rfl⟩
  | case2 _ secure =>
      refine ⟨_, (connection.pHandleHandshake handshake).2, ?_,
        connection.pHandleHandshake_mode handshake⟩
      simp [pStartHandshake_ok secure, bind, Except.bind, pure, Except.pure]
  | case3 _ _ _ _ ih => exact ih
  | case4 failed => exact ⟨connection, failed, rfl, rfl⟩

theorem asyncConnect_mode (connection : Connection) (course : ConnectCourse) :
    ∃ after result, connection.asyncConnect course = .ok (after, result) ∧
      after.mode = connection.mode := by
  unfold asyncConnect
  split
  · exact ⟨connection, _, rfl, rfl⟩
  · split
    · exact ⟨connection, _, rfl, rfl⟩
    · exact pHandleConnect_mode _ _ _ _

theorem pHandleHandshake_server (connection : Connection) (err : ErrorType) :
    (connection.pHandleHandshake err).1.scheme = connection.scheme ∧
      (connection.pHandleHandshake err).1.server = connection.server := by
  unfold pHandleHandshake
  split <;> exact ⟨rfl, rfl⟩

theorem asyncConnect_server {course : ConnectCourse} {result : ErrorType}
    (connected : connection.asyncConnect course = .ok (after, result)) :
    after.scheme = connection.scheme ∧ after.server = connection.server := by
  have handled (err : ErrorType) (rest : List ErrorType)
      (done : pHandleConnect course.handshake connection err rest = .ok (after, result)) :
      after.scheme = connection.scheme ∧ after.server = connection.server := by
    fun_induction pHandleConnect course.handshake connection err rest with
    | case1 =>
        cases done
        exact ⟨rfl, rfl⟩
    | case2 _ secure =>
        simp only [pStartHandshake_ok secure, bind, Except.bind, pure, Except.pure,
          Except.ok.injEq] at done
        have same := connection.pHandleHandshake_server course.handshake
        rwa [done] at same
    | case3 _ _ _ _ ih => exact ih done
    | case4 =>
        cases done
        exact ⟨rfl, rfl⟩
  rw [asyncConnect] at connected
  split at connected
  · cases connected
    exact ⟨rfl, rfl⟩
  · split at connected
    · cases connected
      exact ⟨rfl, rfl⟩
    · exact handled _ _ connected

/-- A secured client reports a connection only after its handshake. -/
theorem pHandleConnect_secured (secured : connection.SecuredClient) (handshake err : ErrorType)
    (rest : List ErrorType) :
    ∃ after result, pHandleConnect handshake connection err rest = .ok (after, result) ∧
      (result = .ok → after.SecuredClient ∧ after.Handshaken) := by
  have secure : connection.mode ≠ .notSecure := by
    rw [secured.mode]
    exact Mode.noConfusion
  fun_induction pHandleConnect handshake connection err rest with
  | case1 _ plain => exact absurd plain secure
  | case2 =>
      have kept := pHandleHandshake_secured secured handshake
      refine ⟨_, _, ?_, fun ok => ⟨kept.1, (kept.2 ok).1⟩⟩
      simp [pStartHandshake_ok secure, bind, Except.bind, pure, Except.pure]
  | case3 _ _ _ _ ih => exact ih
  | case4 failed wrong => exact ⟨connection, failed, rfl, fun ok => absurd ok wrong⟩

theorem asyncConnect_secured (secured : connection.SecuredClient) {course : ConnectCourse}
    (connected : connection.asyncConnect course = .ok (after, .ok)) :
    after.SecuredClient ∧ after.Handshaken := by
  rw [asyncConnect] at connected
  split at connected
  · next failed =>
      exact absurd (congrArg Prod.snd (Except.ok.inj connected)) failed
  · split at connected
    · cases connected
    · next first rest _ =>
        obtain ⟨made, result, done, kept⟩ :=
          pHandleConnect_secured secured course.handshake first rest
        rw [done] at connected
        cases connected
        exact kept rfl

theorem SecuredClient.not_checksHost (secured : connection.SecuredClient) (host : Bytes) :
    ¬ connection.ChecksHost host := by
  intro given
  obtain ⟨_, stream, present, _, _, named⟩ := given
  obtain ⟨other, found, _, unnamed⟩ := secured.stream
  obtain rfl := Option.some.inj (found.symm.trans present)
  rw [unnamed] at named
  cases named

end Connection

end Marvin
