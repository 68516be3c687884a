import Marvin.Server.MitmApp
import Mathlib.Algebra.Order.BigOperators.Group.List

namespace Marvin.Server

open Marvin.Data Marvin.Buffer Marvin.Http Marvin.Message Marvin.Helpers Marvin.Collector

/-! # Requests that are forwarded

Which delivered requests get through the forwarding path: the checks that stop
one are on the target, on two header fields and on the size of the body.  The
head of the upstream request never comes near the allocator's limit.
-/

variable {urls : UrlParser} {regex : Bytes → Option (Bytes → Bool)}
  {filters : List Bytes} {methodStr : HttpMethod → Bytes}
  {request prepared : MessageBase} {host : Bytes}

theorem relativePathOf_length (url : HttpUrl) :
    (Uri.relativePathOf url).length ≤ url.path.length + url.search.length + 2 := by
  have pieces : (ascii "/").length = 1 ∧ (ascii "/?").length = 2 ∧ (ascii "?").length = 1 := by
    decide
  unfold Uri.relativePathOf
  split
  · omega
  · split
    · rw [List.length_append]
      omega
    · split
      · omega
      · rw [List.length_append, List.length_append]
        omega

theorem signedDecimal_length {port : Int} (machine : port.natAbs ≤ 2 ^ 31) :
    (signedDecimal port).length ≤ 11 := by
  have digits : (decimal port.natAbs).length ≤ 10 :=
    decimal_length (by decide) (Nat.lt_of_le_of_lt machine (by decide))
  unfold signedDecimal
  split
  · rw [List.length_cons]
    omega
  · omega

theorem ofText_length {text : Bytes} {uri : Uri} (made : Uri.ofText urls text = .ok uri) :
    uri.host.length + uri.relativePath.length ≤ text.length + 14 := by
  obtain ⟨same, found, path, port, machine, named⟩ :=
    Uri.ofText_ok (Uri.accepted_of_ofText made)
  obtain rfl := Except.ok.inj (made.symm.trans found)
  have slices := urls.slices text
  have short := relativePathOf_length (urls.parseHttpUrl text)
  have digits := signedDecimal_length machine
  have colon : (ascii ":").length = 1 := by decide
  rw [path, named, List.length_append, List.length_append]
  omega

theorem header_length {name value : Bytes} (found : request.header name = some value) :
    value.length ≤ (request.fields.map lineBytes).sum := by
  rw [MessageBase.header_eq_lookup, KeyedList.lookup, Option.map_eq_some_iff] at found
  obtain ⟨field, first, rfl⟩ := found
  have member : field ∈ request.fields :=
    List.mem_of_mem_filter (List.mem_of_mem_head? first)
  have least := List.le_sum_of_mem (List.mem_map_of_mem (f := lineBytes) member)
  simp only [lineBytes] at least
  omega

/-- The write of an upstream request fails for a large body only. -/
theorem upstream_write_iff (named : ∀ method, (methodStr method).length ≤ 32)
    (delivered : Delivered request) (ready : Prepared prepared host)
    (asking : prepared.isRequest = true)
    (short : host.length + prepared.target.length ≤ 2 * httpMaxHeaderSize + 14) :
    (∃ written, Client.asyncWriteChain methodStr (requestTransformCommon prepared request)
        request.body = .ok written) ↔ request.body.size ≤ 1024 * 1024 := by
  refine ⟨fun ⟨written, done⟩ => (Client.asyncWriteChain_ok delivered.parsed.built done).2.2,
    fun small => Client.asyncWriteChain_exists delivered.parsed.built small ?_⟩
  obtain ⟨target, method, kind⟩ := requestTransformCommon_start prepared request
  have lines := upstream_linesSize ready small
  have counted := linesSize_le request.fields
  have limited := delivered.limited
  have length : (decimal request.body.size).length ≤ 7 :=
    decimal_length (by decide) (Nat.lt_of_le_of_lt small (by decide))
  have added := linesSize_put (.ofText HeaderFields.contentLength) (decimal request.body.size)
    (requestTransformCommon prepared request).fields
  have name : (HeaderKey.ofText HeaderFields.contentLength).val.length = 14 := by decide
  have verb : (((requestTransformCommon prepared request).method.map methodStr).getD []).length ≤
      32 := by
    cases (requestTransformCommon prepared request).method with
    | none => exact Nat.zero_le _
    | some method => exact named method
  rw [headPieces_length (by rw [MessageBase.isRequest_setHeader, kind, asking]),
    MessageBase.method_setHeader, MessageBase.target_setHeader, MessageBase.fields_setHeader,
    trim_decimal, target]
  simp only [httpMaxHeaderSize] at limited short
  omega

theorem pRoundtripUpstream_iff (named : ∀ method, (methodStr method).length ≤ 32)
    (delivered : Delivered request) :
    (∃ written, MitmHttp.pRoundtripUpstream urls methodStr request = .ok written) ↔
      Uri.Accepted urls request.target ∧ request.header (ascii "Upgrade") = none ∧
        request.body.size ≤ 1024 * 1024 := by
  have limited := delivered.limited
  cases made : makeUpstreamRequest urls .new request with
  | error fault =>
      refine ⟨fun ⟨written, done⟩ => ?_, fun ⟨accepted, plain, _⟩ => ?_⟩
      · simp [MitmHttp.pRoundtripUpstream, made, bind, Except.bind] at done
      · obtain ⟨uri, built, _⟩ := Uri.ofText_ok accepted
        simp [makeUpstreamRequest, built, plain, bind, Except.bind, pure, Except.pure] at made
  | ok upstream =>
      obtain ⟨uri, prepared, built, ready, target, method, asking, rfl⟩ :=
        makeUpstreamRequest_ok made
      have accepted := Uri.accepted_of_ofText built
      have plain : request.header (ascii "Upgrade") = none := by
        rw [← Option.not_isSome_iff_eq_none]
        intro upgrade
        simp [makeUpstreamRequest, built, upgrade, bind, Except.bind, throw, throwThe,
          MonadExceptOf.throw] at made
      have room : (trim uri.host).length + prepared.target.length ≤ 2 * httpMaxHeaderSize + 14 := by
        have whole := ofText_length built
        have trimmed := trim_length_le uri.host
        rw [target]
        omega
      simp only [MitmHttp.pRoundtripUpstream, made, bind, Except.bind,
        upstream_write_iff named delivered ready asking room]
      exact ⟨fun small => ⟨accepted, plain, small⟩, fun held => held.2.2⟩

theorem pRoundtripUpstreamHttps_iff (named : ∀ method, (methodStr method).length ≤ 32)
    (delivered : Delivered request) :
    (∃ written, MitmHttps.pRoundtripUpstream methodStr request = .ok written) ↔
      request.header HeaderFields.host ≠ none ∧ request.body.size ≤ 1024 * 1024 := by
  have limited := delivered.limited
  cases made : makeUpstreamHttpsRequest .new request with
  | error fault =>
      refine ⟨fun ⟨written, done⟩ => ?_, fun ⟨hosted, _⟩ => ?_⟩
      · simp [MitmHttps.pRoundtripUpstream, made, bind, Except.bind] at done
      · obtain ⟨value, found⟩ := Option.ne_none_iff_exists'.mp hosted
        simp [makeUpstreamHttpsRequest, found, pure, Except.pure] at made
  | ok upstream =>
      obtain ⟨value, prepared, found, ready, target, method, asking, rfl⟩ :=
        makeUpstreamHttpsRequest_ok made
      have room : (trim value).length + prepared.target.length ≤ 2 * httpMaxHeaderSize + 14 := by
        have counted := header_length found
        have trimmed := trim_length_le value
        rw [target]
        omega
      simp only [MitmHttps.pRoundtripUpstream, made, bind, Except.bind,
        upstream_write_iff named delivered ready asking room]
      exact ⟨fun small => ⟨by simp [found], small⟩, fun held => held.2⟩

theorem pOnFirstMessage_iff (urls : UrlParser) (regex : Bytes → Option (Bytes → Bool))
    (filters : List Bytes) (named : ∀ method, (methodStr method).length ≤ 32)
    (delivered : Delivered request) :
    (∃ action, MitmApp.pOnFirstMessage urls regex filters methodStr request = .ok action) ↔
      Forwardable urls regex filters request := by
  cases made : Uri.ofText urls request.target with
  | error fault =>
      refine ⟨fun ⟨action, done⟩ => ?_, fun ⟨accepted, _⟩ => ?_⟩
      · simp [MitmApp.pOnFirstMessage, made, bind, Except.bind] at done
      · obtain ⟨uri, built, _⟩ := Uri.ofText_ok accepted
        simp [built] at made
  | ok uri =>
      have accepted := Uri.accepted_of_ofText made
      by_cases connect : request.method = some .connect
      · have server : uri.server = (urls.parseHttpUrl request.target).host := Uri.server_ofText made
        by_cases shielded : CaptureFilter.Shielded regex filters
            (urls.parseHttpUrl request.target).host
        · refine ⟨fun _ => ⟨accepted, .inl ⟨connect, shielded⟩⟩, fun _ => ?_⟩
          obtain ⟨answer, found⟩ := CaptureFilter.isCollectable_of_shielded shielded
          simp only [MitmApp.pOnFirstMessage, made, bind, Except.bind, if_pos connect,
            MitmApp.pDetermineAction, server, found]
          cases answer with
          | true => exact ⟨_, rfl⟩
          | false => exact ⟨_, rfl⟩
        · have thrown := CaptureFilter.isCollectable_of_not_shielded shielded
          refine ⟨fun ⟨action, done⟩ => ?_, fun ⟨_, checked⟩ => ?_⟩
          · simp [MitmApp.pOnFirstMessage, made, bind, Except.bind, connect,
              MitmApp.pDetermineAction, server, thrown] at done
          · rcases checked with ⟨_, safe⟩ | ⟨other, _⟩
            · exact absurd safe shielded
            · exact absurd connect other
      · have through : (∃ action,
            MitmApp.pOnFirstMessage urls regex filters methodStr request = .ok action) ↔
            ∃ written, MitmHttp.pRoundtripUpstream urls methodStr request = .ok written := by
          simp only [MitmApp.pOnFirstMessage, made, bind, Except.bind, if_neg connect]
          cases MitmHttp.pRoundtripUpstream urls methodStr request with
          | error fault => simp
          | ok written => simp [pure, Except.pure]
        rw [through, pRoundtripUpstream_iff named delivered]
        simp [Forwardable, connect]

/-- A delivered request is taken through the forwarding path, to a tunnel, to the
secure proxy or to the write of the upstream request, exactly when its target
makes a uri, no invalid filter is tried on the host of a `CONNECT`, and any other
request asks for no upgrade and has a body that fits into one allocation.  A request
read inside a secured connection needs a `Host` field and such a body. -/
theorem forwarding_completes_iff (urls : UrlParser) (regex : Bytes → Option (Bytes → Bool))
    (filters : List Bytes) (named : ∀ method, (methodStr method).length ≤ 32)
    (delivered : Delivered request) :
    ((∃ action, MitmApp.pOnFirstMessage urls regex filters methodStr request = .ok action) ↔
      Forwardable urls regex filters request) ∧
    ((∃ written, MitmHttps.pRoundtripUpstream methodStr request = .ok written) ↔
      request.header HeaderFields.host ≠ none ∧ request.body.size ≤ 1024 * 1024) :=
  ⟨pOnFirstMessage_iff urls regex filters named delivered,
    pRoundtripUpstreamHttps_iff named delivered⟩

def getEvents (target : Bytes) : List Event :=
  [.messageBegin, .url target, .headerField (ascii "Host"), .headerValue (ascii "h.x"),
    .headersComplete (.other 1) 1 1, .messageComplete]

def getRequest (target : Bytes) : MessageBase :=
  (((MessageBase.new.setHeader (ascii "Host") (ascii "h.x")).setVersion 1 1).setMethod
    (some (.other 1))).setTarget target

def connectEvents (target : Bytes) : List Event :=
  [.messageBegin, .url target, .headersComplete .connect 1 1, .messageComplete]

def connectRequest (target : Bytes) : MessageBase :=
  ((MessageBase.new.setVersion 1 1).setMethod (some .connect)).setTarget target

/-- A page is asked for, and a tunnel or a secured connection to a host that the
first filter accepts, with an invalid filter behind it. -/
theorem absolute_target_forwarded :
    (∃ action, MitmApp.pOnFirstMessage .slicing CaptureFilter.plainRegex []
      (fun _ => ascii "GET") (getRequest (ascii "http://h.x/")) = .ok action) ∧
    (∃ written, MitmHttps.pRoundtripUpstream (fun _ => ascii "GET")
      (getRequest (ascii "http://h.x/")) = .ok written) ∧
    ∃ action, MitmApp.pOnFirstMessage .slicing CaptureFilter.plainRegex
      [ascii ".*", ascii "("] (fun _ => ascii "GET") (connectRequest (ascii "h.x:443")) =
        .ok action := by
  have named : ∀ _ : HttpMethod, (ascii "GET").length ≤ 32 := fun _ => by decide
  have delivered : Delivered (getRequest (ascii "http://h.x/")) :=
    ⟨⟨getEvents (ascii "http://h.x/"), _, rfl, by decide⟩, by decide, by decide⟩
  have connects : Delivered (connectRequest (ascii "h.x:443")) :=
    ⟨⟨connectEvents (ascii "h.x:443"), _, rfl, by decide⟩, by decide, by decide⟩
  have forwarded := forwarding_completes_iff .slicing CaptureFilter.plainRegex [] named delivered
  have tunnelled := forwarding_completes_iff .slicing CaptureFilter.plainRegex
    [ascii ".*", ascii "("] named connects
  have accepted : CaptureFilter.Accepts CaptureFilter.plainRegex (ascii ".*") (ascii "h.x") :=
    ⟨_, rfl, by decide⟩
  exact ⟨forwarded.1.mpr ⟨by decide, .inr (by decide)⟩, forwarded.2.mpr (by decide),
    tunnelled.1.mpr ⟨by decide, .inl ⟨rfl, CaptureFilter.shielded_of_accepts accepted⟩⟩⟩

/-- A request in origin form, as a client sends it to a server that is no proxy,
fails the assertion on the scheme, and a `CONNECT` throws when the first filter is
not a valid expression. -/
theorem origin_target_fails_assert :
    Delivered (getRequest (ascii "/")) ∧
      MitmApp.pOnFirstMessage .slicing CaptureFilter.plainRegex [] (fun _ => ascii "GET")
        (getRequest (ascii "/")) = .error .noDefaultPort ∧
      Delivered (connectRequest (ascii "h.x:443")) ∧
      MitmApp.pOnFirstMessage .slicing CaptureFilter.plainRegex [ascii "("]
        (fun _ => ascii "GET") (connectRequest (ascii "h.x:443")) = .error .regexError :=
  ⟨⟨⟨getEvents (ascii "/"), _, rfl, by decide⟩, by decide, by decide⟩, by decide,
    ⟨⟨connectEvents (ascii "h.x:443"), _, rfl, by decide⟩, by decide, by decide⟩, by decide⟩

end Marvin.Server
