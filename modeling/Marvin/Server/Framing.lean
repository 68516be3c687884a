import Marvin.Server.Forwarding

namespace Marvin.Server

open Marvin.Data Marvin.Buffer Marvin.Http Marvin.Message Marvin.Helpers

/-! # Framing

The lengths announced in the heads the proxy writes.  A request always gets a
fresh `Content-Length`; a response gets one only when it has a body, and keeps
whatever the parser filed under that name when it has none.
-/

structure Framed (written : Written) : Prop where
  unchunked : key HeaderFields.transferEncoding ∉ KeyedList.keys written.message.fields
  single : (KeyedList.named (key HeaderFields.contentLength) written.message.fields).length ≤ 1
  counted : ∀ field ∈ KeyedList.named (key HeaderFields.contentLength) written.message.fields,
    Numeral (trim field.value) written.body.length

variable {urls : UrlParser} {methodStr : HttpMethod → Bytes}
  {request response prepared : MessageBase} {host : Bytes} {written : Written}

theorem framed_of_named
    (unchunked : key HeaderFields.transferEncoding ∉ KeyedList.keys written.message.fields)
    (counted : KeyedList.named (key HeaderFields.contentLength) written.message.fields =
      [⟨key HeaderFields.contentLength, decimal written.body.length⟩]) : Framed written := by
  refine ⟨unchunked, by simp [counted], fun field member => ?_⟩
  rw [counted, List.mem_singleton] at member
  rw [member, trim_decimal]
  exact decimal_numeral _

theorem nodup_requestTransformCommon (ready : Prepared prepared host) :
    (KeyedList.keys (requestTransformCommon prepared request).fields).Nodup := by
  rw [fields_requestTransformCommon]
  apply KeyedList.nodup_keys_put
  apply KeyedList.nodup_keys_remove
  exact KeyedList.nodup_keys_put (KeyedList.nodup_keys_put (KeyedList.nodup_keys_put
    (nodup_strippedFields ready)))

/-- Every upstream request announces the length of the body written after it. -/
theorem upstream_framed (built : request.body.Built)
    (ready : Prepared prepared host)
    (done : Client.asyncWriteChain methodStr (requestTransformCommon prepared request)
      request.body = .ok written) :
    KeyedList.named (key HeaderFields.contentLength) written.message.fields =
        [⟨key HeaderFields.contentLength, decimal written.body.length⟩] ∧ Framed written := by
  obtain ⟨message, _, _⟩ := Client.asyncWriteChain_ok built done
  have fields : written.message.fields = KeyedList.put (key HeaderFields.contentLength)
      (decimal written.body.length) (requestTransformCommon prepared request).fields := by
    rw [message, MessageBase.fields_setHeader, trim_decimal]
  have counted : KeyedList.named (key HeaderFields.contentLength) written.message.fields =
      [⟨key HeaderFields.contentLength, decimal written.body.length⟩] := by
    rw [fields, KeyedList.named_put_self _ (nodup_requestTransformCommon ready)]
  refine ⟨counted, framed_of_named ?_ counted⟩
  rw [fields, KeyedList.mem_keys_put, mem_keys_requestTransformCommon ready]
  intro given
  rcases given with same | same | kept
  · exact absurd same (by decide)
  · exact absurd same (by decide)
  · exact kept.1 rfl

theorem pRoundtripUpstream_framed (parsed : Parsed request)
    (sent : MitmHttp.pRoundtripUpstream urls methodStr request = .ok written ∨
      MitmHttps.pRoundtripUpstream methodStr request = .ok written) :
    KeyedList.named (key HeaderFields.contentLength) written.message.fields =
        [⟨key HeaderFields.contentLength, decimal written.body.length⟩] ∧ Framed written := by
  rcases sent with plain | secure
  · obtain ⟨upstream, made, rest⟩ := exists_ok_of_bind plain
    obtain ⟨_, prepared, _, ready, _, _, _, rfl⟩ := makeUpstreamRequest_ok made
    exact upstream_framed parsed.built ready rest
  · obtain ⟨upstream, made, rest⟩ := exists_ok_of_bind secure
    obtain ⟨_, prepared, _, ready, _, _, _, rfl⟩ := makeUpstreamHttpsRequest_ok made
    exact upstream_framed parsed.built ready rest

/-! ## Responses -/

/-- The length field that an empty response takes over from the server's: the
last one the parser filed, in the header section or among the trailers. -/
def inheritedLength (response : MessageBase) : Option Field :=
  (KeyedList.named (key HeaderFields.contentLength) response.fields).getLast?

/-- A response without a body announces none. -/
def EmptyAnnounced (response : MessageBase) : Prop :=
  response.body.size = 0 → ∀ field ∈ inheritedLength response, Numeral (trim field.value) 0

instance (response : MessageBase) : Decidable (EmptyAnnounced response) :=
  inferInstanceAs (Decidable (_ → _))

/-- The fields of the downstream response before a body is attached. -/
def headedFields (response : MessageBase) : List Field :=
  KeyedList.put (key HeaderFields.connection) HeaderFields.connectionClose
    (KeyedList.putAll [] (copied responseDontCopyList response))

theorem nodup_headedFields (response : MessageBase) :
    (KeyedList.keys (headedFields response)).Nodup :=
  KeyedList.nodup_keys_put (KeyedList.nodup_keys_putAll List.nodup_nil)

theorem transferEncoding_headedFields (response : MessageBase) :
    key HeaderFields.transferEncoding ∉ KeyedList.keys (headedFields response) := by
  rw [headedFields, KeyedList.mem_keys_put, KeyedList.mem_keys_putAll, copied,
    KeyedList.mem_keys_restrict]
  intro given
  rcases given with same | absent | excluded
  · exact absurd same (by decide)
  · cases absent
  · exact absurd (of_decide_eq_true excluded.2) (by decide)

theorem contentLength_headedFields (response : MessageBase) :
    KeyedList.named (key HeaderFields.contentLength) (headedFields response) =
      (inheritedLength response).toList := by
  have kept : KeyedList.named (key HeaderFields.contentLength)
      (copied responseDontCopyList response) =
        KeyedList.named (key HeaderFields.contentLength) response.fields := by
    rw [copied, KeyedList.named, KeyedList.restrict_restrict]
    congr 1
    funext name
    by_cases same : name = key HeaderFields.contentLength
    · subst same
      decide
    · simp [same]
  rw [headedFields, KeyedList.named_put_ne (by decide), KeyedList.named_putAll, kept]
  exact KeyedList.putAll_nil_same KeyedList.key_of_mem_named

theorem fields_writeDownstream {writer : MessageWriter}
    (done : writeDownstream methodStr writer response = .ok written) :
    written.message.fields =
      if response.body.size > 0 then KeyedList.put (key HeaderFields.contentLength)
        (decimal response.body.size) (KeyedList.remove (key HeaderFields.transferEncoding)
          (headedFields response)) else headedFields response := by
  rw [(MessageWriter.asyncWrite_ok done).1]
  exact fields_makeDownstreamGoodResponse .new response

theorem body_writeDownstream (parsed : Parsed response) {writer : MessageWriter}
    (done : writeDownstream methodStr writer response = .ok written) :
    written.body.length = response.body.size := by
  rw [(MessageWriter.asyncWrite_ok done).2]
  by_cases full : response.body.size > 0
  · have chain : (makeDownstreamGoodResponse .new response).body = response.body := by
      simp only [makeDownstreamGoodResponse, if_pos full]
      rfl
    rw [chain, MessageWriter.fullBody_chain parsed.built]
    exact parsed.built.size.symm
  · have chain : (makeDownstreamGoodResponse .new response).body = .empty := by
      simp only [makeDownstreamGoodResponse, if_neg full]
      rfl
    rw [chain, Nat.eq_zero_of_not_pos full]
    rfl

theorem full_framed (parsed : Parsed response) (full : response.body.size > 0)
    {writer : MessageWriter} (done : writeDownstream methodStr writer response = .ok written) :
    Framed written := by
  have fields := fields_writeDownstream done
  rw [if_pos full] at fields
  have distinct := @KeyedList.nodup_keys_remove _ _ _ (key HeaderFields.transferEncoding) _
    (nodup_headedFields response)
  apply framed_of_named
  · rw [fields, KeyedList.mem_keys_put, KeyedList.mem_keys_remove (nodup_headedFields response)]
    intro given
    rcases given with same | removed
    · exact absurd same (by decide)
    · exact removed.1 rfl
  · rw [fields, body_writeDownstream parsed done, KeyedList.named_put_self _ distinct]

theorem empty_framed_iff (parsed : Parsed response) (empty : response.body.size = 0)
    {writer : MessageWriter} (done : writeDownstream methodStr writer response = .ok written) :
    Framed written ↔ ∀ field ∈ inheritedLength response, Numeral (trim field.value) 0 := by
  have fields := fields_writeDownstream done
  rw [if_neg (Nat.not_lt.mpr (Nat.le_of_eq empty))] at fields
  have counted := contentLength_headedFields response
  rw [← fields] at counted
  have length := (body_writeDownstream parsed done).trans empty
  refine ⟨fun framed field inherited => ?_, fun announced => ⟨?_, ?_, fun field member => ?_⟩⟩
  · rw [← length]
    exact framed.counted field (by rw [counted]; simpa using inherited)
  · rw [fields]
    exact transferEncoding_headedFields response
  · rw [counted]
    exact Option.length_toList_le
  · rw [counted, Option.mem_toList] at member
    rw [length]
    exact announced field member

theorem writeDownstream_framed_iff (parsed : Parsed response) {writer : MessageWriter}
    (done : writeDownstream methodStr writer response = .ok written) :
    Framed written ↔ EmptyAnnounced response := by
  by_cases full : response.body.size > 0
  · exact iff_of_true (full_framed parsed full done) (fun none => absurd none (Nat.ne_of_gt full))
  · have empty := Nat.eq_zero_of_not_pos full
    rw [empty_framed_iff parsed empty done]
    exact ⟨fun announced _ => announced, fun announced => announced empty⟩

/-- In an exchange the upstream head is always framed, with its one length
field; the downstream head is exactly when an empty response does not inherit a
length other than zero. -/
theorem exchange_framed_iff (parsed : Parsed request) (answered : Parsed response)
    {writer : MessageWriter} {upstream downstream : Written}
    (sent : MitmHttp.pRoundtripUpstream urls methodStr request = .ok upstream ∨
      MitmHttps.pRoundtripUpstream methodStr request = .ok upstream)
    (returned : writeDownstream methodStr writer response = .ok downstream) :
    (Framed upstream ∧
        key HeaderFields.contentLength ∈ KeyedList.keys upstream.message.fields ∧
        Framed downstream) ↔ EmptyAnnounced response := by
  obtain ⟨counted, framed⟩ := pRoundtripUpstream_framed parsed sent
  have present : key HeaderFields.contentLength ∈ KeyedList.keys upstream.message.fields := by
    by_contra absent
    rw [KeyedList.named_eq_nil.mpr absent] at counted
    cases counted
  rw [← writeDownstream_framed_iff answered returned]
  exact ⟨fun held => held.2.2, fun returning => ⟨framed, present, returning⟩⟩

def lengthTrailerEvents : List Event :=
  [.messageBegin, .status 200 (ascii "OK"), .headerField (ascii "Transfer-Encoding"),
    .headerValue (ascii "chunked"), .headersComplete (.other 0) 1 1, .chunkHeader,
    .headerField (ascii "Content-Length"), .headerValue (ascii "5"), .headerField (ascii "X"),
    .headerValue (ascii "y"), .chunkComplete, .messageComplete]

/-- An empty chunked response with the trailers `Content-Length: 5` and `X: y`. -/
def lengthTrailerResponse : MessageBase :=
  (((((MessageBase.new.setStatusCode (some 200)).setHeader (ascii "Transfer-Encoding")
    (ascii "chunked")).setVersion 1 1).setReason (ascii "OK")).setHeaderPtr
      (ascii "Content-Length") (ascii "5"))

def emptyEvents : List Event :=
  [.messageBegin, .status 204 (ascii "No Content"), .headersComplete (.other 0) 1 1,
    .messageComplete]

def emptyResponse : MessageBase :=
  ((MessageBase.new.setStatusCode (some 204)).setVersion 1 1).setReason (ascii "No Content")

theorem writeDownstream_exists {writer : MessageWriter}
    (small : ((makeDownstreamGoodResponse .new response).headPieces methodStr).flatten.length ≤
      1024 * 1024) :
    ∃ written, writeDownstream methodStr writer response = .ok written := by
  obtain ⟨serialized, made, _⟩ := MessageBase.serializeHeaders_ok small
  let downMsg := makeDownstreamGoodResponse .new response
  refine ⟨⟨downMsg, serialized.contents, (MessageWriter.mk (some downMsg.body)).fullBody⟩, ?_⟩
  simp only [writeDownstream, MessageWriter.asyncWriteChain, MessageWriter.asyncWrite, made, bind,
    Except.bind]
  rfl

theorem getRequest_parsed : Parsed (getRequest (ascii "http://h.x/")) :=
  ⟨getEvents (ascii "http://h.x/"), _, rfl, by decide⟩

theorem getRequest_sent :
    ∃ upstream, MitmHttp.pRoundtripUpstream .slicing (fun _ => ascii "GET")
      (getRequest (ascii "http://h.x/")) = .ok upstream :=
  (@pRoundtripUpstream_iff .slicing (fun _ => ascii "GET") _ (fun _ => by decide)
    ⟨getRequest_parsed, by decide, by decide⟩).mpr (by decide)

def uploadedEvents : List Event :=
  [.messageBegin, .url (ascii "http://h.x/"), .headerField (ascii "Host"),
    .headerValue (ascii "h.x"), .headerField (ascii "Content-Length"), .headerValue (ascii "3"),
    .headersComplete (.other 3) 1 1, .body (ascii "abc"), .messageComplete]

def downloadedEvents : List Event :=
  [.messageBegin, .status 200 (ascii "OK"), .headerField (ascii "Transfer-Encoding"),
    .headerValue (ascii "chunked"), .headersComplete (.other 0) 1 1, .chunkHeader,
    .body (ascii "done"), .chunkComplete, .messageComplete]

/-- A body of three bytes goes up, and one of four in a chunk comes down. -/
theorem bodies_framed :
    ∃ request response upstream downstream, Parsed request ∧ Parsed response ∧
      MitmHttp.pRoundtripUpstream .slicing (fun _ => ascii "POST") request = .ok upstream ∧
      writeDownstream (fun _ => ascii "POST") .new response = .ok downstream ∧
      upstream.body = ascii "abc" ∧ downstream.body = ascii "done" ∧
      Framed upstream ∧ Framed downstream := by
  obtain ⟨request, asked, named, limited, accepted, upload⟩ : ∃ request, Parsed request ∧
      request.method ≠ none ∧
      request.target.length + (request.fields.map lineBytes).sum ≤ 2 * httpMaxHeaderSize ∧
      (Uri.Accepted .slicing request.target ∧ request.header (ascii "Upgrade") = none ∧
        request.body.size ≤ 1024 * 1024) ∧ request.body.toString = ascii "abc" :=
    ⟨_, ⟨uploadedEvents, _, rfl, rfl⟩, by decide, by decide, by decide, by decide⟩
  obtain ⟨response, answered, announced, small, download⟩ : ∃ response, Parsed response ∧
      EmptyAnnounced response ∧
      ((makeDownstreamGoodResponse .new response).headPieces
        (fun _ => ascii "POST")).flatten.length ≤ 1024 * 1024 ∧
      (MessageWriter.mk (some (makeDownstreamGoodResponse .new response).body)).fullBody =
        ascii "done" :=
    ⟨_, ⟨downloadedEvents, _, rfl, rfl⟩, by decide, by decide, by decide⟩
  obtain ⟨upstream, sent⟩ := (@pRoundtripUpstream_iff .slicing (fun _ => ascii "POST") _
    (fun _ => by decide) ⟨asked, named, limited⟩).mpr accepted
  obtain ⟨downstream, returned⟩ := @writeDownstream_exists (fun _ => ascii "POST") response .new small
  obtain ⟨toServer, _, toClient⟩ :=
    (exchange_framed_iff asked answered (.inl sent) returned).mpr announced
  obtain ⟨_, _, written⟩ := exists_ok_of_bind sent
  obtain ⟨_, up, _⟩ := Client.asyncWriteChain_ok asked.built written
  exact ⟨request, response, upstream, downstream, asked, answered, sent, returned, up.trans upload,
    (MessageWriter.asyncWrite_ok returned).2.trans download, toServer, toClient⟩

/-- The parser files the first trailer as a header, and the empty response goes
to the client with it. -/
theorem trailer_length_forwarded :
    Parsed (getRequest (ascii "http://h.x/")) ∧ Parsed lengthTrailerResponse ∧
      ∃ upstream downstream,
        MitmHttp.pRoundtripUpstream .slicing (fun _ => ascii "GET")
          (getRequest (ascii "http://h.x/")) = .ok upstream ∧
        writeDownstream (fun _ => ascii "GET") .new lengthTrailerResponse = .ok downstream ∧
        downstream.body = [] ∧ ¬ Framed downstream := by
  refine ⟨getRequest_parsed, ⟨lengthTrailerEvents, _, rfl, by decide⟩, ?_⟩
  obtain ⟨upstream, sent⟩ := getRequest_sent
  obtain ⟨downstream, returned⟩ := @writeDownstream_exists (fun _ => ascii "GET")
    lengthTrailerResponse .new (by decide)
  obtain ⟨message, body⟩ := MessageWriter.asyncWrite_ok returned
  have empty : downstream.body = [] := by
    rw [body]
    rfl
  refine ⟨upstream, downstream, sent, returned, empty, fun framed => ?_⟩
  have counted := framed.counted ⟨key HeaderFields.contentLength, ascii "5"⟩
    (by rw [message]; decide)
  rw [empty] at counted
  exact absurd counted (by decide)

end Marvin.Server
