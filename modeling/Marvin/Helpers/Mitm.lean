import Marvin.Http.MessageBase
import Marvin.Http.Uri

namespace Marvin.Helpers

open Marvin.Data Marvin.Http

/-! # Forwarded messages

`marvin/helpers/mitm.cpp`: the upstream request made from a client's request and
the downstream response made from the server's.  The functions fill in a message
that the caller has just constructed; the model takes that message and returns
it filled in.
-/

def applyUri (message : MessageBase) (uri : Uri) (proxy : Bool) : MessageBase :=
  (message.setTarget (if proxy then uri.absolutePath else uri.relativePath)).setHeader
    HeaderFields.host uri.host

def applyUriNonProxy (message : MessageBase) (uri : Uri) : MessageBase :=
  applyUri message uri false

def comma : UInt8 := 44

def removeHopByHop (message : MessageBase) (connectionValue : Bytes) : MessageBase :=
  (tokens comma connectionValue).foldl (fun message token => message.removeHeader (trim token))
    message

def requestDontCopyList : List Bytes :=
  [HeaderFields.host, HeaderFields.proxyConnection, HeaderFields.proxyAuthorization,
    HeaderFields.proxyAuthentication, HeaderFields.connection, HeaderFields.eTag,
    HeaderFields.transferEncoding, HeaderFields.te, HeaderFields.trailer, HeaderFields.upgrade]

def requestTransformCommon (upstreamRequest request : MessageBase) : MessageBase :=
  let result := { upstreamRequest with
    headers := request.headers.copyExcept upstreamRequest.headers requestDontCopyList }
  let result :=
    match request.header HeaderFields.connection with
    | some value => removeHopByHop result value
    | none => result
  let result := result.setHeader HeaderFields.connection HeaderFields.connectionClose
  let result := result.setHeader HeaderFields.acceptEncoding (ascii "identity")
  let result := result.setHeader HeaderFields.te []
  let result := result.setVersionMinor request.httpMinor
  result.setBody request.body

def makeUpstreamRequest (urls : UrlParser) (upstreamRequest request : MessageBase) :
    Except Fault MessageBase := do
  let uri ← Uri.ofText urls request.target
  let result := applyUriNonProxy upstreamRequest uri
  if (request.header (ascii "Upgrade")).isSome then throw .upgradeRequest
  let result := result.setMethod request.method
  return requestTransformCommon result request

def makeUpstreamHttpsRequest (upstreamRequest request : MessageBase) :
    Except Fault MessageBase := do
  let result := upstreamRequest.setTarget request.target
  let result := result.setMethod request.method
  match request.header HeaderFields.host with
  | none => throw .noHostHeader
  | some value =>
      let result := result.setHeader HeaderFields.host value
      return requestTransformCommon result request

def responseDontCopyList : List Bytes :=
  [HeaderFields.host, HeaderFields.proxyConnection, HeaderFields.connection,
    HeaderFields.transferEncoding, HeaderFields.eTag]

def makeDownstreamGoodResponse (downstream response : MessageBase) : MessageBase :=
  let result := { downstream with
    headers := response.headers.copyExcept downstream.headers responseDontCopyList }
  let result := result.setReason response.reason
  let result := result.setStatusCode response.statusCode
  let result := result.setHeader HeaderFields.connection HeaderFields.connectionClose
  let result := result.setVersionMinor response.httpMinor
  if response.body.size > 0 then result.setBody response.body else result

/-- The verdict, and the response with the field that states it. -/
def applyKeepaliveRules (request response : MessageBase) : Bool × MessageBase :=
  match request.header HeaderFields.connection with
  | some value =>
      if value = HeaderFields.connectionKeepAlive then
        (true, response.setHeader HeaderFields.connection HeaderFields.connectionKeepAlive)
      else (false, response.setHeader HeaderFields.connection HeaderFields.connectionClose)
  | none => (false, response.setHeader HeaderFields.connection HeaderFields.connectionClose)

/-! ## Field lists -/

abbrev key (name : Bytes) : HeaderKey := .ofText name

/-- The keys that the tokens of a `Connection` value name. -/
def tokenKeys (value : Bytes) : List HeaderKey :=
  (tokens comma value).map (fun token => .ofText (trim token))

def firstConnectionKeys (message : MessageBase) : List HeaderKey :=
  ((message.header HeaderFields.connection).map tokenKeys).getD []

def connectionKeys (message : MessageBase) : List HeaderKey :=
  (KeyedList.named (key HeaderFields.connection) message.fields).flatMap
    (fun field => tokenKeys field.value)

theorem firstConnectionKeys_subset (message : MessageBase) :
    firstConnectionKeys message ⊆ connectionKeys message := by
  intro name member
  rw [firstConnectionKeys, MessageBase.header_eq_lookup, KeyedList.lookup] at member
  rw [connectionKeys]
  cases selected : KeyedList.named (key HeaderFields.connection) message.fields with
  | nil => simp [selected] at member
  | cons field rest =>
      simp only [selected, List.head?_cons, Option.map_some, Option.getD_some] at member
      exact List.mem_flatMap.mpr ⟨field, List.mem_cons_self, member⟩

def copied (dontCopyList : List Bytes) (message : MessageBase) : List Field :=
  KeyedList.restrict (fun name => decide (name.val ∉ dontCopyList)) message.fields

theorem fields_removeHopByHop (message : MessageBase) (value : Bytes) :
    (removeHopByHop message value).fields =
      KeyedList.removeAll (tokenKeys value) message.fields := by
  unfold removeHopByHop tokenKeys KeyedList.removeAll
  rw [List.foldl_map]
  generalize tokens comma value = names
  induction names generalizing message with
  | nil => rfl
  | cons name rest ih =>
      rw [List.foldl_cons, List.foldl_cons, ih, MessageBase.fields_removeHeader]

/-- The fields after copying and after removing what the first `Connection`
field names. -/
def strippedFields (initial : List Field) (request : MessageBase) : List Field :=
  KeyedList.removeAll (firstConnectionKeys request)
    (KeyedList.putAll initial (copied requestDontCopyList request))

theorem fields_requestTransformCommon (upstreamRequest request : MessageBase) :
    (requestTransformCommon upstreamRequest request).fields =
      KeyedList.put (key HeaderFields.contentLength) (decimal request.body.size)
        (KeyedList.remove (key HeaderFields.transferEncoding)
          (KeyedList.put (key HeaderFields.te) []
            (KeyedList.put (key HeaderFields.acceptEncoding) (ascii "identity")
              (KeyedList.put (key HeaderFields.connection) HeaderFields.connectionClose
                (strippedFields upstreamRequest.fields request))))) := by
  let result : MessageBase := { upstreamRequest with
    headers := request.headers.copyExcept upstreamRequest.headers requestDontCopyList }
  have copying : result.fields =
      KeyedList.putAll upstreamRequest.fields (copied requestDontCopyList request) :=
    HeaderFields.copyExcept_eq_putAll request.headers upstreamRequest.headers requestDontCopyList
  have close : trim HeaderFields.connectionClose = HeaderFields.connectionClose := by decide
  have identity : trim (ascii "identity") = ascii "identity" := by decide
  have stripping : (match request.header HeaderFields.connection with
      | some value => removeHopByHop result value
      | none => result).fields = strippedFields upstreamRequest.fields request := by
    rw [strippedFields, firstConnectionKeys, ← copying]
    cases request.header HeaderFields.connection with
    | none => rfl
    | some value => exact fields_removeHopByHop result value
  simp only [requestTransformCommon, MessageBase.fields_setBody]
  have version (message : MessageBase) (minor : Nat) :
      (message.setVersionMinor minor).fields = message.fields := rfl
  rw [version, MessageBase.fields_setHeader, MessageBase.fields_setHeader,
    MessageBase.fields_setHeader, stripping, close, identity]
  rfl

theorem fields_makeDownstreamGoodResponse (downstream response : MessageBase) :
    (makeDownstreamGoodResponse downstream response).fields =
      let headed := KeyedList.put (key HeaderFields.connection) HeaderFields.connectionClose
        (KeyedList.putAll downstream.fields (copied responseDontCopyList response))
      if response.body.size > 0 then
        KeyedList.put (key HeaderFields.contentLength) (decimal response.body.size)
          (KeyedList.remove (key HeaderFields.transferEncoding) headed)
      else headed := by
  let result : MessageBase := { downstream with
    headers := response.headers.copyExcept downstream.headers responseDontCopyList }
  have copying : result.fields =
      KeyedList.putAll downstream.fields (copied responseDontCopyList response) :=
    HeaderFields.copyExcept_eq_putAll response.headers downstream.headers responseDontCopyList
  have close : trim HeaderFields.connectionClose = HeaderFields.connectionClose := by decide
  let headed : MessageBase :=
    (((result.setReason response.reason).setStatusCode response.statusCode).setHeader
      HeaderFields.connection HeaderFields.connectionClose).setVersionMinor response.httpMinor
  have fields : headed.fields =
      KeyedList.put (key HeaderFields.connection) HeaderFields.connectionClose
        (KeyedList.putAll downstream.fields (copied responseDontCopyList response)) := by
    have kept : headed.fields =
        (((result.setReason response.reason).setStatusCode response.statusCode).setHeader
          HeaderFields.connection HeaderFields.connectionClose).fields := rfl
    have unchanged : ((result.setReason response.reason).setStatusCode
        response.statusCode).fields = result.fields := rfl
    rw [kept, MessageBase.fields_setHeader, unchanged, copying, close]
  have whole : makeDownstreamGoodResponse downstream response =
      if response.body.size > 0 then headed.setBody response.body else headed := rfl
  rw [whole]
  split
  · rw [MessageBase.fields_setBody, fields]
  · exact fields

end Marvin.Helpers
