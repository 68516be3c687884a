import Marvin.Data.History
import Marvin.Helpers.EndToEnd
import Marvin.Http.ReadBack
import Marvin.Server.Forwarding
import Marvin.Server.Framing

namespace Marvin.Server

open Marvin.Data Marvin.Buffer Marvin.Http Marvin.Message Marvin.Helpers

/-! # What the other side reads

A forwarded message is built from the one that was read, written to a socket and
read from there by the parser of a server or a client.
-/

variable {urls : UrlParser} {methodStr : HttpMethod → Bytes} {request response : MessageBase}

/-! ## Ordinary fields -/

theorem ordinary_put {fields : List Field} (ordinary : ∀ field ∈ fields, Field.Ordinary field)
    {key : HeaderKey} {value : Bytes} (new : Field.Ordinary ⟨key, value⟩) :
    ∀ field ∈ KeyedList.put key value fields, Field.Ordinary field := by
  intro field member
  rcases KeyedList.mem_put member with rfl | old
  · exact new
  · exact ordinary field old

theorem ordinary_remove {fields : List Field} (ordinary : ∀ field ∈ fields, Field.Ordinary field)
    (key : HeaderKey) : ∀ field ∈ KeyedList.remove key fields, Field.Ordinary field :=
  fun field member => ordinary field (List.mem_of_mem_eraseP member)

theorem ordinary_removeAll {fields : List Field} (ordinary : ∀ field ∈ fields, Field.Ordinary field)
    (names : List HeaderKey) : ∀ field ∈ KeyedList.removeAll names fields, Field.Ordinary field := by
  induction names generalizing fields with
  | nil => exact ordinary
  | cons name rest ih => exact ih (ordinary_remove ordinary name)

theorem ordinary_putAll {fields additions : List Field}
    (ordinary : ∀ field ∈ fields, Field.Ordinary field)
    (more : ∀ field ∈ additions, Field.Ordinary field) :
    ∀ field ∈ KeyedList.putAll fields additions, Field.Ordinary field := by
  induction additions generalizing fields with
  | nil => exact ordinary
  | cons field rest ih =>
      exact ih (ordinary_put ordinary (more field List.mem_cons_self))
        fun other member => more other (List.mem_cons_of_mem _ member)

/-! ## Requests -/

/-- The parts of a message that the setters of fields leave alone. -/
def versionAndBody (message : MessageBase) : Nat × Nat × BufferChain :=
  (message.httpMajor, message.httpMinor, message.body)

theorem versionAndBody_setHeader (message : MessageBase) (name value : Bytes) :
    versionAndBody (message.setHeader name value) = versionAndBody message := rfl

theorem versionAndBody_setVersionMinor (message : MessageBase) (minor : Nat) :
    versionAndBody (message.setVersionMinor minor) = (message.httpMajor, minor, message.body) := rfl

theorem versionAndBody_setBody (message : MessageBase) (chain : BufferChain) :
    versionAndBody (message.setBody chain) =
      ((versionAndBody message).1, (versionAndBody message).2.1, chain) := rfl

theorem versionAndBody_removeHopByHop (message : MessageBase) (value : Bytes) :
    versionAndBody (removeHopByHop message value) = versionAndBody message := by
  unfold removeHopByHop
  generalize tokens comma value = names
  induction names generalizing message with
  | nil => rfl
  | cons name others ih => exact ih (message.removeHeader (trim name))

theorem requestTransformCommon_versionAndBody (prepared request : MessageBase) :
    versionAndBody (requestTransformCommon prepared request) =
      (prepared.httpMajor, request.httpMinor, request.body) := by
  have major (message : MessageBase) (name value : Bytes) :
      (message.setHeader name value).httpMajor = message.httpMajor := rfl
  simp only [requestTransformCommon, versionAndBody_setBody, versionAndBody_setVersionMinor, major]
  cases request.header HeaderFields.connection with
  | none => rfl
  | some value =>
      have stripped := versionAndBody_removeHopByHop { prepared with
        headers := request.headers.copyExcept prepared.headers requestDontCopyList } value
      exact congrArg (fun parts => (parts.1, request.httpMinor, request.body)) stripped

/-- How a request is sent on: with the path of its uri, or inside a secured
connection as it is. -/
inductive Forwards (urls : UrlParser) (methodStr : HttpMethod → Bytes) (request : MessageBase)
    (written : Written) : Bytes → Bytes → Prop where
  | http {uri : Uri} (made : Uri.ofText urls request.target = .ok uri)
      (sent : MitmHttp.pRoundtripUpstream urls methodStr request = .ok written) :
      Forwards urls methodStr request written uri.relativePath uri.host
  | https {host : Bytes} (found : request.header HeaderFields.host = some host)
      (sent : MitmHttps.pRoundtripUpstream methodStr request = .ok written) :
      Forwards urls methodStr request written request.target host

/-- A request as it comes from a client, with what it is sent on as. -/
structure Plain (request : MessageBase) (target host : Bytes) : Prop where
  parsed : Parsed request
  method : ∃ method, request.method = some method ∧ method ≠ .connect
  minor : request.httpMinor = 0 ∨ request.httpMinor = 1
  fields : ∀ field ∈ request.fields, Field.Ordinary field
  target : target ≠ [] ∧ ∀ byte ∈ target, 32 < byte ∧ byte ≠ 127
  host : Inline host

theorem trim_inline {text : Bytes} (inlined : Inline text) : Inline (trim text) := by
  have within : trim text ⊆ text :=
    List.Subset.trans (List.rdropWhile_prefix _ _).subset (List.dropWhile_suffix _).subset
  exact ⟨fun member => inlined.1 (within member), fun member => inlined.2 (within member)⟩

theorem Forwards.ok {written : Written} {target host : Bytes}
    (forwards : Forwards urls methodStr request written target host) :
    ∃ prepared, Prepared prepared (trim host) ∧ prepared.target = target ∧
      prepared.method = request.method ∧ prepared.isRequest = true ∧ prepared.httpMajor = 1 ∧
      Client.asyncWriteChain methodStr (requestTransformCommon prepared request) request.body =
        .ok written := by
  cases forwards with
  | @http uri made sent =>
      obtain ⟨upstream, built, sending⟩ := exists_ok_of_bind sent
      obtain ⟨other, again, checked⟩ := exists_ok_of_bind built
      obtain rfl := Except.ok.inj (made.symm.trans again)
      dsimp only at checked
      split at checked
      · cases checked
      · cases checked
        exact ⟨(applyUriNonProxy .new uri).setMethod request.method,
          MessageBase.fields_setHeader _ _ _, rfl, rfl, rfl, rfl, sending⟩
  | https found sent =>
      obtain ⟨upstream, built, sending⟩ := exists_ok_of_bind sent
      simp only [makeUpstreamHttpsRequest, found] at built
      cases built
      exact ⟨((MessageBase.new.setTarget request.target).setMethod request.method).setHeader
        HeaderFields.host _, MessageBase.fields_setHeader _ _ _, rfl, rfl, rfl, rfl, sending⟩

theorem upstream_ordinary {prepared : MessageBase} {target host : Bytes}
    (plain : Plain request target host) (ready : Prepared prepared (trim host)) :
    ∀ field ∈ (requestTransformCommon prepared request).fields, Field.Ordinary field := by
  have copies : ∀ field ∈ copied requestDontCopyList request, Field.Ordinary field :=
    fun field member => plain.fields field (List.mem_of_mem_filter member)
  have hosted : ∀ field ∈ prepared.fields, Field.Ordinary field := by
    rw [ready]
    intro field member
    rw [List.mem_singleton.mp member]
    exact ordinary_fixed ⟨by decide, by decide, trim_inline plain.host, trim_idem host⟩
  rw [fields_requestTransformCommon]
  apply ordinary_put _ (ordinary_contentLength _)
  apply ordinary_remove
  apply ordinary_put _ (ordinary_fixed (by decide))
  apply ordinary_put _ (ordinary_fixed (by decide))
  apply ordinary_put _ (ordinary_fixed (by decide))
  exact ordinary_removeAll (ordinary_putAll hosted copies) _

theorem upstream_distinct {prepared : MessageBase} {host : Bytes} (ready : Prepared prepared host) :
    (KeyedList.keys (requestTransformCommon prepared request).fields).Nodup := by
  rw [fields_requestTransformCommon]
  apply KeyedList.nodup_keys_put
  apply KeyedList.nodup_keys_remove
  apply KeyedList.nodup_keys_put
  apply KeyedList.nodup_keys_put
  apply KeyedList.nodup_keys_put
  exact nodup_strippedFields ready

theorem upstream_unencoded {prepared : MessageBase} {host : Bytes} (ready : Prepared prepared host) :
    key HeaderFields.transferEncoding ∉
      KeyedList.keys (requestTransformCommon prepared request).fields := by
  rw [mem_keys_requestTransformCommon ready]
  intro present
  rcases present with same | ⟨different, _⟩
  · exact absurd same (by decide)
  · exact different rfl

/-- A chain is written behind a head that says its length. -/
theorem asyncWriteChain_written {message : MessageBase} {chain : BufferChain} {written : Written}
    (built : chain.Built)
    (counted : message.header HeaderFields.contentLength = some (decimal chain.size))
    (sent : Client.asyncWriteChain methodStr message chain = .ok written) :
    written.message = message.setHeader HeaderFields.contentLength (decimal chain.size) ∧
      written.message.fields = message.fields ∧ written.body = chain.bytes ∧
      written.head = (written.message.headPieces methodStr).flatten := by
  obtain ⟨set, text, _⟩ := Client.asyncWriteChain_ok built sent
  have size : written.body.length = chain.size := by
    rw [text]
    exact built.size.symm
  rw [size] at set
  rw [← Client.asyncWrite_chain] at sent
  obtain ⟨body, _, passed⟩ := Client.asyncWrite_eq_ok.mp sent
  obtain ⟨_, rfl⟩ := Client.pInternalWrite_eq_ok.mp passed
  rw [MessageBase.header_eq_lookup] at counted
  refine ⟨set, ?_, text.trans built.bytes_eq.symm, rfl⟩
  rw [set, MessageBase.fields_setHeader, trim_decimal, KeyedList.put_of_lookup counted]

/-- What is written upstream is the transformed request. -/
theorem upstream_legible {prepared : MessageBase} {target host : Bytes} {written : Written}
    (plain : Plain request target host) (ready : Prepared prepared (trim host))
    (aimed : prepared.target = target) (asked : prepared.method = request.method)
    (kind : prepared.isRequest = true) (major : prepared.httpMajor = 1) {method : HttpMethod}
    (verb : request.method = some method) (ordinary : method ≠ .connect)
    (sent : Client.asyncWriteChain methodStr (requestTransformCommon prepared request) request.body =
      .ok written) :
    written.message.fields = (requestTransformCommon prepared request).fields ∧
      written.message.body = request.body ∧ written.body = request.body.bytes ∧
      written.head = (written.message.headPieces methodStr).flatten ∧
      written.message.httpMinor = request.httpMinor ∧
      written.message.Legible (.request method target) := by
  have built := plain.parsed.built
  have rested := requestTransformCommon_versionAndBody prepared request
  obtain ⟨target', method', kind'⟩ := requestTransformCommon_start prepared request
  have counted : (requestTransformCommon prepared request).header HeaderFields.contentLength =
      some (decimal request.body.size) := by
    rw [MessageBase.header_eq_lookup, fields_requestTransformCommon, KeyedList.lookup_put_self]
  obtain ⟨set, fields, text, head⟩ := asyncWriteChain_written built counted sent
  have others : versionAndBody written.message = (1, request.httpMinor, request.body) := by
    rw [set, versionAndBody_setHeader, rested, major]
  have body : written.message.body = request.body := congrArg (·.2.2) others
  have minor : written.message.httpMinor = request.httpMinor := congrArg (·.2.1) others
  refine ⟨fields, body, text, head, minor, ?_, ⟨ordinary, plain.target⟩,
    congrArg Prod.fst others, ?_, ?_, ?_, ?_, ?_, ?_⟩
  · rw [set]
    refine ⟨?_, ?_, ?_⟩
    · rw [MessageBase.isRequest_setHeader, kind', kind]
    · rw [MessageBase.method_setHeader, method', asked, verb]
    · rw [MessageBase.target_setHeader, target', aimed]
  · rw [minor]
    exact plain.minor
  · rw [fields]
    exact upstream_distinct ready
  · rw [fields]
    exact upstream_ordinary plain ready
  · rw [fields]
    exact upstream_unencoded ready
  · rw [MessageBase.header_eq_lookup, fields, ← MessageBase.header_eq_lookup, body]
    exact counted
  · rw [body]
    exact built.tallied

/-- The server that a request is forwarded to reads, however the bytes are cut, one
request with the method, the version and the body of the client's and the path of its
target.  It asks for the connection to be closed, has the length of the body and has
the host unless the client's first `Connection` field names it.  The other fields are
the client's, of several with one name the last value in the place of the first. -/
theorem upstream_reads_request {σ : Type} {http : HttpParser σ} (stopping : http.Stopping)
    (splitting : http.Splitting) (methodStr : HttpMethod → Bytes) (leftover : HttpMethod)
    {written : Written} {target host : Bytes} (plain : Plain request target host)
    (forwards : Forwards urls methodStr request written target host) {method : HttpMethod}
    (verb : request.method = some method)
    (recognized : Draft.Recognized http (written.message.text methodStr (.request method target))
      (written.message.callbacks (.request method target) leftover))
    {segments : List Bytes} (some : ∀ segment ∈ segments, segment ≠ [])
    (cut : segments.flatten = written.head ++ written.body)
    (bodyFits : ∀ piece, .body piece ∈ http.reports http.init segments →
      piece.length + 100 ≤ 1024 * 1024) :
    ∃ parser early, (∀ value ∈ early, Parser.Onward value) ∧
      (∀ fuel, (Parser.begin http .new).consumeAll http (fuel + 1) segments =
        .ok (parser, early ++ [⟨.endOfMessage, 0⟩])) ∧
      parser.context.message.method = request.method ∧
      parser.context.message.target = target ∧
      parser.context.message.httpMinor = request.httpMinor ∧
      parser.context.message.body.bytes = request.body.bytes ∧
      parser.context.message.header HeaderFields.contentLength =
        Option.some (decimal request.body.bytes.length) ∧
      KeyedList.named (key HeaderFields.connection) parser.context.message.fields =
        [⟨key HeaderFields.connection, HeaderFields.connectionClose⟩] ∧
      KeyedList.named (key HeaderFields.host) parser.context.message.fields =
        (if key HeaderFields.host ∈ firstConnectionKeys request then []
          else [⟨key HeaderFields.host, trim host⟩]) ∧
      endToEndFields requestDontCopyList request parser.context.message =
        KeyedList.putAll [] (endToEndFields requestDontCopyList request request) := by
  obtain ⟨prepared, ready, aimed, asked, kind, major, sent⟩ := forwards.ok
  have ordinary : method ≠ .connect := by
    obtain ⟨other, same, different⟩ := plain.method
    rw [verb, Option.some_inj] at same
    exact same ▸ different
  obtain ⟨fields, body, text, head, minor, legible⟩ :=
    upstream_legible plain ready aimed asked kind major verb ordinary sent
  rw [head, text, ← body] at cut
  obtain ⟨parser, early, onward, consumed, _, agrees⟩ := legible.read_back stopping splitting
    leftover recognized some cut bodyFits
  have same := agrees.fields.trans fields
  have opened : written.message.isRequest = true ∧ written.message.method = Option.some method ∧
      written.message.target = target := legible.opens
  obtain ⟨read, path⟩ := agrees.request opened.1
  refine ⟨parser, early, onward, consumed, ?_, path.trans opened.2.2, agrees.version.2.trans minor,
    ?_, ?_, ?_, ?_, ?_⟩
  · rw [read, opened.2.1, verb]
  · rw [agrees.body, body]
  · rw [MessageBase.header_eq_lookup, agrees.fields, ← MessageBase.header_eq_lookup, legible.counted,
      body]
    exact congrArg (fun length => Option.some (decimal length)) plain.parsed.built.tallied.size
  · rw [same]
    exact requestTransformCommon_closes ready
  · rw [same]
    exact named_host ready
  · rw [endToEndFields, same]
    refine endToEnd_requestTransformCommon request ?_
    rw [ready]
    simp [KeyedList.keys]
    decide

def uploadEvents : List Event :=
  [.messageBegin, .url (ascii "http://h.x/a"), .headerField (ascii "Host"),
    .headerValue (ascii "h.x"), .headerField (ascii "X"), .headerValue (ascii "y"),
    .headersComplete (.other 3) 1 1, .body (ascii "abc"), .messageComplete]

/-- `POST http://h.x/a` with two fields and the body `abc`. -/
def uploadRequest : MessageBase :=
  { (((((MessageBase.new.setHeader (ascii "Host") (ascii "h.x")).setHeader (ascii "X")
      (ascii "y")).setVersion 1 1).setMethod (some (.other 3))).setTarget (ascii "http://h.x/a")) with
    body := Draft.stored [(ascii "abc", 8192)] }

/-- What is sent on, as http_parser reads it. -/
def uploadScript : Script :=
  .closing (ascii "P") .messageBegin ++ .silent (ascii "OST ") ++ .data .url (ascii "/a") ++
    .silent (ascii " HTTP/1.1\r\n") ++ .line (ascii "HOST") (ascii "h.x:80") ++
    .line (ascii "X") (ascii "y") ++ .line (ascii "CONNECTION") (ascii "CLOSE") ++
    .line (ascii "ACCEPT-ENCODING") (ascii "identity") ++ .line (ascii "TE") [] ++
    .line (ascii "CONTENT-LENGTH") (ascii "3") ++
    .closing (ascii "\r\n") (.headersComplete (.other 3) 1 1) ++ .data .body (ascii "abc")

def uploadText : Bytes :=
  uploadScript.map ScriptByte.byte

theorem uploadRequest_sent :
    ∃ written, MitmHttp.pRoundtripUpstream .slicing Draft.post uploadRequest = .ok written ∧
      written.head ++ written.body = uploadText ∧
      written.message.text Draft.post (.request (.other 3) (ascii "/a")) = uploadText ∧
      written.message.callbacks (.request (.other 3) (ascii "/a")) .connect =
        coalesce (uploadScript.reports ++ [.messageComplete]) :=
  ⟨_, rfl, by decide +kernel, by decide +kernel, by decide +kernel⟩

/-- The upload arrives in two segments, cut inside the name of a field. -/
theorem upload_reaches_server :
    ∃ written parser early,
      MitmHttp.pRoundtripUpstream .slicing Draft.post uploadRequest = .ok written ∧
      (Parser.begin (scripted [uploadScript]) .new).consumeAll (scripted [uploadScript]) 1
        [uploadText.take 60, uploadText.drop 60] = .ok (parser, early ++ [⟨.endOfMessage, 0⟩]) ∧
      parser.context.message.target = ascii "/a" ∧
      parser.context.message.body.bytes = ascii "abc" ∧
      endToEndFields requestDontCopyList uploadRequest parser.context.message =
        [⟨key (ascii "X"), ascii "y"⟩] := by
  obtain ⟨written, sent, bytes, text, called⟩ := uploadRequest_sent
  obtain ⟨uri, made, path, host⟩ : ∃ uri, Uri.ofText .slicing uploadRequest.target = .ok uri ∧
      uri.relativePath = ascii "/a" ∧ uri.host = ascii "h.x:80" := ⟨_, rfl, by decide, by decide⟩
  have plain : Plain uploadRequest uri.relativePath uri.host := by
    rw [path, host]
    exact ⟨⟨uploadEvents, _, rfl, by decide⟩, ⟨_, rfl, by decide⟩, .inr rfl, by decide,
      ⟨by decide, by simp [ascii]⟩, by decide⟩
  have recognized : Draft.Recognized (scripted [uploadScript])
      (written.message.text Draft.post (.request (.other 3) uri.relativePath))
      (written.message.callbacks (.request (.other 3) uri.relativePath) .connect) := by
    rw [path, text, called]
    exact scripted_recognized (by simp [uploadScript, Script.silent, ascii])
  have pieces : ∀ event ∈ (scripted [uploadScript]).reports (scripted [uploadScript]).init
      [uploadText.take 60, uploadText.drop 60], Draft.fitsBlock event = true := by decide +kernel
  obtain ⟨parser, early, _, read, _, target, _, body, _, _, _, fields⟩ := upstream_reads_request
    (scripted_stopping _) (scripted_splitting _) Draft.post .connect plain (.http made sent) rfl
    recognized (by decide +kernel) (by rw [bytes]; simp)
    (fun piece member => of_decide_eq_true (pieces _ member))
  exact ⟨written, parser, early, sent, read 0, target.trans path, body,
    fields.trans (by decide +kernel)⟩

/-! ## Responses -/

/-- A response as it comes from a server.  An empty one says that it is empty. -/
structure Complete (response : MessageBase) (code : Nat) : Prop where
  parsed : Parsed response
  status : response.statusCode = some code
  coded : 100 ≤ code ∧ code ≤ 999
  reason : Inline response.reason
  minor : response.httpMinor = 0 ∨ response.httpMinor = 1
  fields : ∀ field ∈ response.fields, Field.Ordinary field
  announced : response.body.size = 0 →
    (inheritedLength response).map Entry.value = some (decimal 0)

theorem downstream_start (response : MessageBase) :
    (makeDownstreamGoodResponse .new response).isRequest = false ∧
      (makeDownstreamGoodResponse .new response).statusCode = response.statusCode ∧
      (makeDownstreamGoodResponse .new response).reason = response.reason ∧
      (makeDownstreamGoodResponse .new response).httpMajor = 1 ∧
      (makeDownstreamGoodResponse .new response).httpMinor = response.httpMinor := by
  simp only [makeDownstreamGoodResponse]
  split
  · exact ⟨rfl, rfl, rfl, rfl, rfl⟩
  · exact ⟨rfl, rfl, rfl, rfl, rfl⟩

theorem downstream_body {response : MessageBase} (built : response.body.Built) :
    (makeDownstreamGoodResponse .new response).body.Built ∧
      (makeDownstreamGoodResponse .new response).body.size = response.body.size ∧
      (makeDownstreamGoodResponse .new response).body.bytes = response.body.bytes := by
  by_cases full : response.body.size > 0
  · have chain : (makeDownstreamGoodResponse .new response).body = response.body := by
      simp only [makeDownstreamGoodResponse, if_pos full]
      rfl
    rw [chain]
    exact ⟨built, rfl, rfl⟩
  · have chain : (makeDownstreamGoodResponse .new response).body = .empty := by
      simp only [makeDownstreamGoodResponse, if_neg full]
      rfl
    have none : response.body.size = 0 := Nat.eq_zero_of_not_pos full
    have length : response.body.bytes.length = 0 := built.tallied.size.symm.trans none
    rw [chain, none, List.eq_nil_of_length_eq_zero length]
    exact ⟨BufferChain.empty_built, rfl, rfl⟩

theorem downstream_ordinary {code : Nat} (complete : Complete response code) :
    ∀ field ∈ (makeDownstreamGoodResponse .new response).fields, Field.Ordinary field := by
  have copies : ∀ field ∈ copied responseDontCopyList response, Field.Ordinary field :=
    fun field member => complete.fields field (List.mem_of_mem_filter member)
  have headed : ∀ field ∈ headedFields response, Field.Ordinary field :=
    ordinary_put (ordinary_putAll (fun _ member => absurd member List.not_mem_nil) copies)
      (ordinary_fixed (by decide))
  rw [fields_makeDownstreamGoodResponse]
  dsimp only
  split
  · exact ordinary_put (ordinary_remove headed _) (ordinary_contentLength _)
  · exact headed

theorem downstream_framing {code : Nat} (complete : Complete response code) :
    (KeyedList.keys (makeDownstreamGoodResponse .new response).fields).Nodup ∧
      key HeaderFields.transferEncoding ∉
        KeyedList.keys (makeDownstreamGoodResponse .new response).fields ∧
      (makeDownstreamGoodResponse .new response).header HeaderFields.contentLength =
        some (decimal response.body.size) := by
  have distinct := nodup_headedFields response
  have removed := @KeyedList.nodup_keys_remove _ _ _ (key HeaderFields.transferEncoding) _ distinct
  have unencoded := transferEncoding_headedFields response
  rw [MessageBase.header_eq_lookup, fields_makeDownstreamGoodResponse]
  dsimp only
  split
  · refine ⟨KeyedList.nodup_keys_put removed, ?_, KeyedList.lookup_put_self _ _ _⟩
    rw [KeyedList.mem_keys_put, not_or]
    exact ⟨by decide, KeyedList.not_mem_keys_remove distinct⟩
  · next empty =>
      have none := Nat.eq_zero_of_not_pos empty
      refine ⟨distinct, unencoded, ?_⟩
      change KeyedList.lookup (key HeaderFields.contentLength) (headedFields response) = _
      rw [KeyedList.lookup, contentLength_headedFields, none, ← complete.announced none]
      cases inheritedLength response <;> rfl

theorem downstream_connection (response : MessageBase) :
    KeyedList.named (key HeaderFields.connection) (makeDownstreamGoodResponse .new response).fields =
      [⟨key HeaderFields.connection, HeaderFields.connectionClose⟩] := by
  have headed : KeyedList.named (key HeaderFields.connection) (headedFields response) =
      [⟨key HeaderFields.connection, HeaderFields.connectionClose⟩] :=
    KeyedList.named_put_self _ (KeyedList.nodup_keys_putAll List.nodup_nil)
  rw [fields_makeDownstreamGoodResponse]
  dsimp only
  split
  · rw [KeyedList.named_put_ne (by decide), KeyedList.named_remove_ne (by decide)]
    exact headed
  · exact headed

/-- The client reads the server's response, however the bytes are cut: its status, its
reason, its version and its body.  It is told that the connection is closed, and the
other fields are the server's, of several with one name the last value in the place of
the first. -/
theorem downstream_reads_response {σ : Type} {http : HttpParser σ} (stopping : http.Stopping)
    (splitting : http.Splitting) (methodStr : HttpMethod → Bytes) (leftover : HttpMethod)
    {code : Nat} (complete : Complete response code) {writer : MessageWriter} {written : Written}
    (sent : writeDownstream methodStr writer response = .ok written)
    (recognized : Draft.Recognized http
      (written.message.text methodStr (.response code response.reason))
      (written.message.callbacks (.response code response.reason) leftover))
    {segments : List Bytes} (some : ∀ segment ∈ segments, segment ≠ [])
    (cut : segments.flatten = written.head ++ written.body)
    (bodyFits : ∀ piece, .body piece ∈ http.reports http.init segments →
      piece.length + 100 ≤ 1024 * 1024) :
    ∃ parser early, (∀ value ∈ early, Parser.Onward value) ∧
      (∀ fuel, (Parser.begin http .new).consumeAll http (fuel + 1) segments =
        .ok (parser, early ++ [⟨.endOfMessage, 0⟩])) ∧
      parser.context.message.statusCode = response.statusCode ∧
      parser.context.message.reason = response.reason ∧
      parser.context.message.httpMinor = response.httpMinor ∧
      parser.context.message.body.bytes = response.body.bytes ∧
      parser.context.message.header HeaderFields.contentLength =
        Option.some (decimal response.body.bytes.length) ∧
      KeyedList.named (key HeaderFields.connection) parser.context.message.fields =
        [⟨key HeaderFields.connection, HeaderFields.connectionClose⟩] ∧
      endToEndFields responseDontCopyList response parser.context.message =
        KeyedList.putAll [] (endToEndFields responseDontCopyList response response) := by
  have built := complete.parsed.built
  obtain ⟨kind, status, reason, major, minor⟩ := downstream_start response
  obtain ⟨chained, size, bytes⟩ := downstream_body built
  obtain ⟨distinct, unencoded, counted⟩ := downstream_framing complete
  obtain ⟨message, body⟩ := MessageWriter.asyncWrite_ok sent
  obtain ⟨buffer, serialized, head⟩ := MessageWriter.asyncWrite_head sent
  rw [MessageWriter.fullBody_chain chained, ← chained.bytes_eq] at body
  have small : ((makeDownstreamGoodResponse .new response).headPieces methodStr).flatten.length ≤
      1024 * 1024 := by
    by_contra long
    cases (MessageBase.serializeHeaders_error (Nat.lt_of_not_le long)).symm.trans serialized
  obtain ⟨same, again, text⟩ := MessageBase.serializeHeaders_ok small
  obtain rfl := Except.ok.inj (again.symm.trans serialized)
  have legible : (makeDownstreamGoodResponse .new response).Legible
      (.response code response.reason) := by
    refine ⟨⟨kind, status.trans complete.status, reason⟩,
      ⟨complete.coded.1, complete.coded.2, complete.reason⟩, major, ?_, distinct,
      downstream_ordinary complete, unencoded, ?_, chained.tallied⟩
    · rw [minor]
      exact complete.minor
    · rw [counted, size]
  rw [head, text, body] at cut
  rw [message] at recognized
  obtain ⟨parser, early, onward, consumed, _, agrees⟩ := legible.read_back stopping splitting
    leftover recognized some cut bodyFits
  obtain ⟨read, said⟩ := agrees.response kind
  refine ⟨parser, early, onward, consumed, read.trans status, said.trans reason,
    agrees.version.2.trans minor, agrees.body.trans bytes, ?_, ?_, ?_⟩
  · rw [MessageBase.header_eq_lookup, agrees.fields, ← MessageBase.header_eq_lookup, counted]
    exact congrArg (fun length => Option.some (decimal length)) built.tallied.size
  · rw [agrees.fields]
    exact downstream_connection response
  · rw [endToEndFields, agrees.fields]
    exact endToEnd_makeDownstreamGoodResponse response

def okEvents : List Event :=
  [.messageBegin, .status 200 (ascii "OK"), .headerField (ascii "X"), .headerValue (ascii "y"),
    .headersComplete (.other 0) 1 1, .body (ascii "abc"), .messageComplete]

def okResponse : MessageBase :=
  { ((((MessageBase.new.setStatusCode (some 200)).setHeader (ascii "X") (ascii "y")).setVersion 1
      1).setReason (ascii "OK")) with body := Draft.stored [(ascii "abc", 8192)] }

def okScript : Script :=
  .closing (ascii "H") .messageBegin ++ .silent (ascii "TTP/1.1 200 ") ++
    .data (.status 200) (ascii "OK") ++ .silent (ascii "\r\n") ++ .line (ascii "X") (ascii "y") ++
    .line (ascii "CONNECTION") (ascii "CLOSE") ++ .line (ascii "CONTENT-LENGTH") (ascii "3") ++
    .closing (ascii "\r\n") (.headersComplete .connect 1 1) ++ .data .body (ascii "abc")

def okText : Bytes :=
  okScript.map ScriptByte.byte

theorem okResponse_sent :
    ∃ written, writeDownstream Draft.post .new okResponse = .ok written ∧
      written.head ++ written.body = okText ∧
      written.message.text Draft.post (.response 200 (ascii "OK")) = okText ∧
      written.message.callbacks (.response 200 (ascii "OK")) .connect =
        coalesce (okScript.reports ++ [.messageComplete]) :=
  ⟨_, rfl, by decide +kernel, by decide +kernel, by decide +kernel⟩

/-- The response arrives in two segments, cut inside its body. -/
theorem ok_reaches_client :
    ∃ written parser early, writeDownstream Draft.post .new okResponse = .ok written ∧
      (Parser.begin (scripted [okScript]) .new).consumeAll (scripted [okScript]) 1
        [okText.take 64, okText.drop 64] = .ok (parser, early ++ [⟨.endOfMessage, 0⟩]) ∧
      parser.context.message.statusCode = some 200 ∧
      parser.context.message.body.bytes = ascii "abc" := by
  obtain ⟨written, sent, bytes, text, called⟩ := okResponse_sent
  have complete : Complete okResponse 200 :=
    ⟨⟨okEvents, _, rfl, by decide⟩, rfl, by decide, by decide, .inr rfl, by decide, by decide⟩
  have recognized : Draft.Recognized (scripted [okScript])
      (written.message.text Draft.post (.response 200 okResponse.reason))
      (written.message.callbacks (.response 200 okResponse.reason) .connect) := by
    change Draft.Recognized _ (written.message.text Draft.post (.response 200 (ascii "OK")))
      (written.message.callbacks (.response 200 (ascii "OK")) .connect)
    rw [text, called]
    exact scripted_recognized (by simp [okScript, Script.silent, ascii])
  have pieces : ∀ event ∈ (scripted [okScript]).reports (scripted [okScript]).init
      [okText.take 64, okText.drop 64], Draft.fitsBlock event = true := by decide +kernel
  obtain ⟨parser, early, _, read, status, _, _, body, _⟩ := downstream_reads_response
    (scripted_stopping _) (scripted_splitting _) Draft.post .connect complete sent recognized
    (by decide +kernel) (by rw [bytes]; simp)
    (fun piece member => of_decide_eq_true (pieces _ member))
  exact ⟨written, parser, early, sent, read 0, status, body⟩

end Marvin.Server
