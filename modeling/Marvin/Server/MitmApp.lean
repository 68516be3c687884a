import Marvin.Client.Client
import Marvin.Collector.CaptureFilter
import Marvin.Helpers.HopByHop
import Marvin.Http.HeadSize
import Marvin.Http.Segmentation

namespace Marvin.Server

open Marvin.Data Marvin.Buffer Marvin.Http Marvin.Message Marvin.Helpers Marvin.Collector

/-! # The forwarding path

`marvin/server/mitm_app.cpp`, `mitm_http.cpp` and `mitm_https.cpp`, from a
request the reader delivers to the write of the upstream request, and from the
response to the write downstream.  `filters` are those that the capture filter
holds when a `CONNECT` is read.
-/

variable (urls : UrlParser) (regex : Bytes → Option (Bytes → Bool)) (filters : List Bytes)
  (methodStr : HttpMethod → Bytes)

namespace MitmHttp

def pRoundtripUpstream (request : MessageBase) : Except Fault Written := do
  let upstreamRequest ← makeUpstreamRequest urls .new request
  Client.asyncWriteChain methodStr upstreamRequest request.body

end MitmHttp

namespace MitmHttps

def pRoundtripUpstream (request : MessageBase) : Except Fault Written := do
  let upstreamRequest ← makeUpstreamHttpsRequest .new request
  Client.asyncWriteChain methodStr upstreamRequest request.body

end MitmHttps

/-- The callback that both `p_initiate_upstream_roundtrip` functions pass to
`p_roundtrip_upstream`, run on the message made from the server's response. -/
def writeDownstream (writer : MessageWriter) (response : MessageBase) : Except Fault Written :=
  let downMsg := makeDownstreamGoodResponse .new response
  writer.asyncWriteChain methodStr downMsg downMsg.body

namespace MitmApp

inductive ConnectAction where
  | tunnel
  | mitm
  | reject
deriving DecidableEq, Repr

/-- What `p_on_first_message` sets going. -/
inductive Action where
  | tunnel (scheme host : Bytes) (port : Int)
  | mitmHttps (scheme host : Bytes) (port : Int)
  | mitmHttp (upstream : Written)
deriving DecidableEq, Repr

/-- The comment on it has a rule for the port, which it is given and does not read. -/
def pDetermineAction (host _port : Bytes) : Except Fault ConnectAction := do
  if ← CaptureFilter.isCollectable regex host filters then return .mitm
  else return .tunnel

def pOnFirstMessage (request : MessageBase) : Except Fault Action := do
  let uri ← Uri.ofText urls request.target
  if request.method = some .connect then
    match ← pDetermineAction regex filters uri.server (signedDecimal uri.port) with
    | .tunnel => return .tunnel uri.scheme uri.server uri.port
    | .mitm => return .mitmHttps uri.scheme uri.server uri.port
    | .reject => throw .connectRejected
  else
    let upstream ← MitmHttp.pRoundtripUpstream urls methodStr request
    return .mitmHttp upstream

end MitmApp

/-! ## Delivered messages -/

def Parsed (message : MessageBase) : Prop :=
  ∃ events context, (ParserContext.pInitialize .new).handle events = .ok context ∧
    context.message = message

theorem Parsed.built {message : MessageBase} (parsed : Parsed message) : message.body.Built := by
  obtain ⟨events, context, handled, rfl⟩ := parsed
  exact ParserContext.handle_built BufferChain.empty_built handled

/-- `HTTP_MAX_HEADER_SIZE`: http_parser reads no longer header section, and no
longer trailer section. -/
def httpMaxHeaderSize : Nat := 80 * 1024

/-- The least number of bytes a line takes: its name, a colon, its value and a
line feed. -/
def lineBytes (field : Field) : Nat :=
  field.key.val.length + field.value.length + 2

/-- What the reader can pass on as a request: the parser's callbacks made it, and
its head and trailers are within http_parser's limit. -/
structure Delivered (request : MessageBase) : Prop where
  parsed : Parsed request
  asked : request.method ≠ none
  limited : request.target.length + (request.fields.map lineBytes).sum ≤ 2 * httpMaxHeaderSize

/-- The first request of a connection passes the checks made on it: its target makes
a uri, no invalid filter is tried on the host of a `CONNECT`, and any other request
asks for no upgrade and has a body that fits into one allocation. -/
def Forwardable (request : MessageBase) : Prop :=
  Uri.Accepted urls request.target ∧
    (request.method = some .connect ∧
        CaptureFilter.Shielded regex filters (urls.parseHttpUrl request.target).host ∨
      request.method ≠ some .connect ∧ request.header (ascii "Upgrade") = none ∧
        request.body.size ≤ 1024 * 1024)

variable {urls regex filters methodStr} {request : MessageBase}

theorem linesSize_le (fields : List Field) :
    linesSize fields ≤ 2 * (fields.map lineBytes).sum := by
  induction fields with
  | nil => exact Nat.le_refl _
  | cons field rest ih =>
      simp only [linesSize, List.map_cons, List.sum_cons, lineSize, lineBytes] at ih ⊢
      omega

/-- The start line and the header lines of the upstream request are as long as
the client's, but for what the proxy adds. -/
theorem upstream_linesSize {prepared : MessageBase} {host : Bytes}
    (ready : Prepared prepared host) (body : request.body.size ≤ 1024 * 1024) :
    linesSize (requestTransformCommon prepared request).fields ≤
      linesSize request.fields + host.length + 128 := by
  have length : (decimal request.body.size).length ≤ 7 :=
    decimal_length (by decide) (Nat.lt_of_le_of_lt body (by decide))
  have first := linesSize_putAll [⟨key HeaderFields.host, host⟩] (copied requestDontCopyList request)
  have copy : linesSize (copied requestDontCopyList request) ≤ linesSize request.fields :=
    linesSize_sublist List.filter_sublist
  have line : linesSize [⟨key HeaderFields.host, host⟩] = host.length + 8 := by
    simp [linesSize, lineSize, HeaderKey.ofText, HeaderFields.host, ascii]
    omega
  have stripped : linesSize (strippedFields prepared.fields request) ≤
      linesSize request.fields + host.length + 8 := by
    rw [ready, strippedFields]
    exact (linesSize_removeAll _ _).trans (by omega)
  rw [fields_requestTransformCommon]
  let closing := KeyedList.put (key HeaderFields.connection) HeaderFields.connectionClose
    (strippedFields prepared.fields request)
  let accepting := KeyedList.put (key HeaderFields.acceptEncoding) (ascii "identity") closing
  let announcing := KeyedList.put (key HeaderFields.te) [] accepting
  let unchunked := KeyedList.remove (key HeaderFields.transferEncoding) announcing
  have connection : linesSize closing ≤ _ := linesSize_put _ _ _
  have accept : linesSize accepting ≤ _ := linesSize_put _ _ _
  have te : linesSize announcing ≤ _ := linesSize_put _ _ _
  have removal : linesSize unchunked ≤ linesSize announcing :=
    linesSize_sublist List.eraseP_sublist
  have sized := linesSize_put (key HeaderFields.contentLength) (decimal request.body.size) unchunked
  have names : (key HeaderFields.connection).val.length = 10 ∧
      HeaderFields.connectionClose.length = 5 ∧ (key HeaderFields.acceptEncoding).val.length = 15 ∧
      (ascii "identity").length = 8 ∧ (key HeaderFields.te).val.length = 2 ∧
      (key HeaderFields.contentLength).val.length = 14 := by decide
  simp only [names, List.length_nil] at connection accept te sized
  change linesSize (KeyedList.put _ _ unchunked) ≤ _
  omega

end Marvin.Server
