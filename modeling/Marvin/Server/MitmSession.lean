import Marvin.Connection.Connection
import Marvin.Data.Transition
import Marvin.Http.KeepAlive
import Marvin.Server.MitmApp

namespace Marvin.Server

open Marvin.Data Marvin.Buffer Marvin.Http Marvin.Message Marvin.Helpers

/-! # A session of the proxy

`marvin/server/mitm_app.cpp` with its delegates `mitm_http.cpp`, `mitm_https.cpp`
and `mitm_tunnel.cpp`, from `handle` on: the asynchronous operations they start
and what the callback of each does.  Reading a message, connecting, shaking
hands, writing a message, a round trip of the `Client` and a tunnel are one
operation each.  An exception or a failed assertion in a callback ends the
session without a completion.
-/

/-- An operation in progress, named after the function whose callback it runs. -/
inductive Operation where
  | firstRead
  | httpRoundtrip
  | httpWrite
  | httpRead
  | httpsConnect
  | httpsBadGateway
  | httpsHandshake
  | httpsConnected
  | httpsServerHandshake
  | httpsRead
  | httpsReconnect
  | httpsRoundtrip
  | httpsWrite
  | tunnelConnect
  | tunnelBadGateway
  | tunnelConnected
  | tunnel
deriving DecidableEq, Repr

/-- The end of an operation, with what its callback is given. -/
inductive Completion where
  | firstRead (result : Except ErrorType MessageBase)
  | httpRoundtrip (result : Except ErrorType MessageBase)
  | httpWrite (err : ErrorType)
  | httpRead (result : Except ErrorType MessageBase)
  | httpsConnect (course : ConnectCourse)
  | httpsBadGateway (err : ErrorType)
  | httpsHandshake (err : ErrorType)
  | httpsConnected (err : ErrorType)
  | httpsServerHandshake (err : ErrorType)
  | httpsRead (result : Except ErrorType MessageBase)
  | httpsReconnect (course : ConnectCourse)
  | httpsRoundtrip (result : Except ErrorType MessageBase)
  | httpsWrite (err : ErrorType)
  | tunnelConnect (course : ConnectCourse)
  | tunnelBadGateway (err : ErrorType)
  | tunnelConnected (err : ErrorType)
  | tunnel (err : ErrorType)

def Completion.operation : Completion → Operation
  | .firstRead _ => .firstRead
  | .httpRoundtrip _ => .httpRoundtrip
  | .httpWrite _ => .httpWrite
  | .httpRead _ => .httpRead
  | .httpsConnect _ => .httpsConnect
  | .httpsBadGateway _ => .httpsBadGateway
  | .httpsHandshake _ => .httpsHandshake
  | .httpsConnected _ => .httpsConnected
  | .httpsServerHandshake _ => .httpsServerHandshake
  | .httpsRead _ => .httpsRead
  | .httpsReconnect _ => .httpsReconnect
  | .httpsRoundtrip _ => .httpsRoundtrip
  | .httpsWrite _ => .httpsWrite
  | .tunnelConnect _ => .tunnelConnect
  | .tunnelBadGateway _ => .tunnelBadGateway
  | .tunnelConnected _ => .tunnelConnected
  | .tunnel _ => .tunnel

/-- A request written upstream, and the connection of `MitmHttps` it was written
to; `MitmHttp` leaves connecting to the `Client`. -/
structure Forwarded where
  written : Written
  via : Option Connection
deriving DecidableEq, Repr

structure Session where
  /-- The operations in progress. -/
  outstanding : List Operation
  /-- How often `m_done_callback` was posted. -/
  doneCallbacks : Nat
  downstream : Connection
  writer : MessageWriter
  upstreamScheme : Bytes
  upstreamHost : Bytes
  upstreamPort : Bytes
  upstream : Connection
  downstreamRequest : MessageBase
  downstreamResponse : MessageBase
  /-- All client requests other than `CONNECT` that were written upstream. -/
  forwarded : List Forwarded
deriving DecidableEq, Repr

def makeResponse200OkConnected (message : MessageBase) : Except Fault MessageBase := do
  let chain ← BufferChain.ofText []
  return ((message.setReason (ascii "OK")).setStatusCode (some 200)).setBody chain

def makeResponse502Badgateway (message : MessageBase) : Except Fault MessageBase := do
  let chain ← BufferChain.ofText []
  return ((message.setReason (ascii "BAD GATEWAY")).setStatusCode (some 503)).setBody chain

namespace Session

variable (urls : UrlParser) (regex : Bytes → Option (Bytes → Bool))
    (filters : List Bytes) (methodStr : HttpMethod → Bytes)

def start (session : Session) (operation : Operation) : Session :=
  { session with outstanding := session.outstanding ++ [operation] }

/-- The session of an accepted connection, once `handle` has returned. -/
def handle (downstream : Connection) : Session :=
  start {
    outstanding := []
    doneCallbacks := 0
    downstream := downstream
    writer := .new
    upstreamScheme := []
    upstreamHost := []
    upstreamPort := []
    upstream := .ofServer [] [] []
    downstreamRequest := .new
    downstreamResponse := .new
    forwarded := [] } .firstRead

def pOnCompleted (session : Session) : Session :=
  { session with doneCallbacks := session.doneCallbacks + 1 }

/-- Also what the five error functions of `MitmApp` and `p_on_tunnel_completed`
come down to. -/
def pConnectionEnd (session : Session) : Session :=
  session.pOnCompleted

def writeMessage (session : Session) (message : MessageBase) (operation : Operation) :
    Except Fault Session := do
  let _ ← session.writer.asyncWrite methodStr message
  return { session with downstreamResponse := message }.start operation

/-- The callback of `p_initiate_upstream_roundtrip`, run on the server's response. -/
def respond (session : Session) (response : MessageBase) (operation : Operation) :
    Except Fault Session := do
  let _ ← writeDownstream methodStr session.writer response
  let downMsg := makeDownstreamGoodResponse .new response
  return { session with
    downstreamResponse := downMsg
    writer := { session.writer with bodyBufferChain := some downMsg.body } }.start operation

/-- `p_on_request_completed` of both delegates. -/
def pOnRequestCompleted (session : Session) (read : Operation) : Session :=
  if session.downstreamRequest.isConnectionKeepAlive &&
      session.downstreamResponse.isConnectionKeepAlive then
    session.start read
  else session.pConnectionEnd

def openUpstream (session : Session) : Session :=
  { session with
    upstream := .ofServer session.upstreamScheme session.upstreamHost session.upstreamPort }

def directTo (session : Session) (scheme host : Bytes) (port : Int) : Session :=
  { session with
    upstreamScheme := scheme
    upstreamHost := host
    upstreamPort := signedDecimal port }.openUpstream

def forward (session : Session) (written : Written) (via : Option Connection) : Session :=
  { session with forwarded := session.forwarded ++ [⟨written, via⟩] }

def pOnFirstMessage (session : Session) (request : MessageBase) : Except Fault Session := do
  let session := { session with downstreamRequest := request }
  match ← MitmApp.pOnFirstMessage urls regex filters methodStr request with
  | .tunnel scheme host port => return (session.directTo scheme host port).start .tunnelConnect
  | .mitmHttps scheme host port => return (session.directTo scheme host port).start .httpsConnect
  | .mitmHttp written =>
      return (session.forward written none).start .httpRoundtrip

namespace MitmHttp

/-- Forwards `m_downstream_request_sptr`, which only the constructor sets. -/
def pInitiateUpstreamRoundtrip (session : Session) : Except Fault Session := do
  let written ← Server.MitmHttp.pRoundtripUpstream urls methodStr session.downstreamRequest
  return (session.forward written none).start .httpRoundtrip

end MitmHttp

namespace MitmHttps

def pHandshakeUpstream (session : Session) : Except Fault Session := do
  let upstream ← session.upstream.becomeSecureClient
  let upstream ← upstream.pStartHandshake
  return { session with upstream }.start .httpsHandshake

def pOnUpstreamConnectHandshakeError (session : Session) : Except Fault Session := do
  let response ← makeResponse502Badgateway .new
  session.writeMessage methodStr response .httpsBadGateway

def onUpstreamHandshake (session : Session) : Except Fault Session := do
  session.upstream.getServerCertificate
  let response ← makeResponse200OkConnected .new
  session.writeMessage methodStr response .httpsConnected

def onConnected (session : Session) : Except Fault Session := do
  let downstream ← session.downstream.becomeSecureServer
  let downstream ← downstream.pStartHandshake
  return { session with downstream }.start .httpsServerHandshake

def pInitiateUpstreamRoundtrip (session : Session) : Except Fault Session := do
  let session := session.openUpstream
  let upstream ← session.upstream.becomeSecureClient
  return { session with upstream }.start .httpsReconnect

def pRoundtripUpstream (session : Session) : Except Fault Session := do
  let written ← Server.MitmHttps.pRoundtripUpstream methodStr session.downstreamRequest
  return (session.forward written (some session.upstream)).start .httpsRoundtrip

end MitmHttps

namespace MitmTunnel

def onConnectFailed (session : Session) : Except Fault Session := do
  let response ← makeResponse502Badgateway .new
  session.writeMessage methodStr response .tunnelBadGateway

def onConnected (session : Session) : Except Fault Session := do
  let response ← makeResponse200OkConnected .new
  session.writeMessage methodStr response .tunnelConnected

end MitmTunnel

def callback (session : Session) : Completion → Except Fault Session
  | .firstRead (.error _) => return session.pConnectionEnd
  | .firstRead (.ok request) => session.pOnFirstMessage urls regex filters methodStr request
  | .httpRoundtrip (.error _) => return session.pConnectionEnd
  | .httpRoundtrip (.ok response) => session.respond methodStr response .httpWrite
  | .httpWrite err =>
      if err ≠ .ok then return session.pConnectionEnd
      else return session.pOnRequestCompleted .httpRead
  | .httpRead (.error _) => return session.pConnectionEnd
  | .httpRead (.ok _) => MitmHttp.pInitiateUpstreamRoundtrip urls methodStr session
  | .httpsConnect course => do
      let (upstream, err) ← session.upstream.asyncConnect course
      let session := { session with upstream }
      if err ≠ .ok then MitmHttps.pOnUpstreamConnectHandshakeError methodStr session
      else MitmHttps.pHandshakeUpstream session
  | .httpsBadGateway _ => return session.pConnectionEnd
  | .httpsHandshake err => do
      let (upstream, err) := session.upstream.pHandleHandshake err
      let session := { session with upstream }
      if err ≠ .ok then return session.pConnectionEnd
      else MitmHttps.onUpstreamHandshake methodStr session
  | .httpsConnected err =>
      if err ≠ .ok then return session.pConnectionEnd else MitmHttps.onConnected session
  | .httpsServerHandshake err => do
      let (downstream, err) := session.downstream.pHandleHandshake err
      let session := { session with downstream }
      if err ≠ .ok then return session.pConnectionEnd else return session.start .httpsRead
  | .httpsRead (.error _) => return session.pConnectionEnd
  | .httpsRead (.ok request) =>
      MitmHttps.pInitiateUpstreamRoundtrip { session with downstreamRequest := request }
  | .httpsReconnect course => do
      let (upstream, err) ← session.upstream.asyncConnect course
      let session := { session with upstream }
      if err ≠ .ok then return session.pConnectionEnd
      else MitmHttps.pRoundtripUpstream methodStr session
  | .httpsRoundtrip (.error _) => return session.pConnectionEnd
  | .httpsRoundtrip (.ok response) => session.respond methodStr response .httpsWrite
  | .httpsWrite err =>
      if err ≠ .ok then return session.pConnectionEnd
      else return session.pOnRequestCompleted .httpsRead
  | .tunnelConnect course => do
      let (upstream, err) ← session.upstream.asyncConnect course
      let session := { session with upstream }
      if err ≠ .ok then MitmTunnel.onConnectFailed methodStr session
      else MitmTunnel.onConnected methodStr session
  | .tunnelBadGateway _ => return session.pConnectionEnd
  | .tunnelConnected err =>
      if err ≠ .ok then return session.pConnectionEnd else return session.start .tunnel
  | .tunnel _ => return session.pConnectionEnd

/-- An operation completes once. -/
def step (session : Session) (completion : Completion) : Except Fault Session :=
  { session with outstanding := session.outstanding.erase completion.operation }.callback urls
    regex filters methodStr completion

def Enabled (session : Session) (completion : Completion) : Prop :=
  completion.operation ∈ session.outstanding

instance (session : Session) : DecidablePred session.Enabled := fun completion =>
  inferInstanceAs (Decidable (completion.operation ∈ session.outstanding))

/-- The runs of a session on a newly accepted connection. -/
def runs : Transition Session Completion :=
  .ofStep (fun session => ∃ scheme server port, session = handle (.ofServer scheme server port))
    Enabled (step urls regex filters methodStr)

end Session

end Marvin.Server
