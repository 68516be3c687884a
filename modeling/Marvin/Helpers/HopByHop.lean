import Marvin.Helpers.Mitm

namespace Marvin.Helpers

open Marvin.Data Marvin.Http

/-! # Hop-by-hop headers and the Host field

What the upstream request does and does not contain.  Only the first
`Connection` field of a request is looked at, and what its tokens name is
removed after the proxy's own `Host` field has been set.
-/

def ownNames : List Bytes :=
  [HeaderFields.host, HeaderFields.connection, HeaderFields.acceptEncoding, HeaderFields.te,
    HeaderFields.contentLength]

def withheldNames : List Bytes :=
  [HeaderFields.proxyConnection, HeaderFields.proxyAuthorization, HeaderFields.proxyAuthentication,
    HeaderFields.transferEncoding, HeaderFields.trailer, HeaderFields.upgrade]

theorem withheldNames_listed : ∀ name ∈ withheldNames, name ∈ requestDontCopyList := by decide

/-- The upstream request has no field that a `Connection` field of the client's
request names, none of the withheld ones, and closes the connection. -/
structure Screened (request upstream : MessageBase) : Prop where
  named : ∀ name ∈ KeyedList.keys upstream.fields, name ∈ connectionKeys request →
    name.val ∈ ownNames
  withheld : ∀ name ∈ KeyedList.keys upstream.fields, name.val ∉ withheldNames
  closes : KeyedList.named (key HeaderFields.connection) upstream.fields =
    [⟨key HeaderFields.connection, HeaderFields.connectionClose⟩]

/-- An upstream request before the common transformation: only its `Host` field
is set. -/
def Prepared (message : MessageBase) (host : Bytes) : Prop :=
  message.fields = [⟨key HeaderFields.host, host⟩]

variable {prepared request : MessageBase} {host : Bytes}

theorem nodup_strippedFields (ready : Prepared prepared host) :
    (KeyedList.keys (strippedFields prepared.fields request)).Nodup := by
  apply KeyedList.nodup_keys_removeAll
  apply KeyedList.nodup_keys_putAll
  rw [ready]
  simp [KeyedList.keys]

theorem mem_keys_strippedFields (ready : Prepared prepared host) {name : HeaderKey} :
    name ∈ KeyedList.keys (strippedFields prepared.fields request) ↔
      name ∉ firstConnectionKeys request ∧
        (name = key HeaderFields.host ∨
          name ∈ KeyedList.keys request.fields ∧ name.val ∉ requestDontCopyList) := by
  have distinct : (KeyedList.keys (KeyedList.putAll prepared.fields
      (copied requestDontCopyList request))).Nodup := by
    apply KeyedList.nodup_keys_putAll
    rw [ready]
    simp [KeyedList.keys]
  have initial : name ∈ KeyedList.keys prepared.fields ↔ name = key HeaderFields.host := by
    rw [ready]
    simp [KeyedList.keys]
  rw [strippedFields, KeyedList.mem_keys_removeAll distinct, KeyedList.mem_keys_putAll, initial,
    copied, KeyedList.mem_keys_restrict, decide_eq_true_iff]

theorem mem_keys_requestTransformCommon (ready : Prepared prepared host) {name : HeaderKey} :
    name ∈ KeyedList.keys (requestTransformCommon prepared request).fields ↔
      name = key HeaderFields.contentLength ∨
        name ≠ key HeaderFields.transferEncoding ∧
          (name = key HeaderFields.te ∨ name = key HeaderFields.acceptEncoding ∨
            name = key HeaderFields.connection ∨
            name ∈ KeyedList.keys (strippedFields prepared.fields request)) := by
  rw [fields_requestTransformCommon, KeyedList.mem_keys_put, KeyedList.mem_keys_remove,
    KeyedList.mem_keys_put, KeyedList.mem_keys_put, KeyedList.mem_keys_put]
  exact KeyedList.nodup_keys_put (KeyedList.nodup_keys_put (KeyedList.nodup_keys_put
    (nodup_strippedFields ready)))

/-- The keys that are set or removed after the `Connection` field is. -/
def adjustedKeys : List HeaderKey :=
  [key HeaderFields.contentLength, key HeaderFields.transferEncoding, key HeaderFields.te,
    key HeaderFields.acceptEncoding]

theorem named_requestTransformCommon {name : HeaderKey} (untouched : name ∉ adjustedKeys) :
    KeyedList.named name (requestTransformCommon prepared request).fields =
      KeyedList.named name (KeyedList.put (key HeaderFields.connection)
        HeaderFields.connectionClose (strippedFields prepared.fields request)) := by
  simp only [adjustedKeys, List.mem_cons, not_or] at untouched
  obtain ⟨length, encoding, te, accept, _⟩ := untouched
  rw [fields_requestTransformCommon, KeyedList.named_put_ne length,
    KeyedList.named_remove_ne encoding, KeyedList.named_put_ne te, KeyedList.named_put_ne accept]

theorem requestTransformCommon_closes (ready : Prepared prepared host) :
    KeyedList.named (key HeaderFields.connection) (requestTransformCommon prepared request).fields =
      [⟨key HeaderFields.connection, HeaderFields.connectionClose⟩] := by
  rw [named_requestTransformCommon (by decide),
    KeyedList.named_put_self _ (nodup_strippedFields ready)]

theorem requestTransformCommon_withheld (ready : Prepared prepared host) :
    ∀ name ∈ KeyedList.keys (requestTransformCommon prepared request).fields,
      name.val ∉ withheldNames := by
  intro name member
  rcases (mem_keys_requestTransformCommon ready).mp member with
    rfl | ⟨_, rfl | rfl | rfl | stripped⟩
  · decide
  · decide
  · decide
  · decide
  · rcases ((mem_keys_strippedFields ready).mp stripped).2 with rfl | ⟨_, unlisted⟩
    · decide
    · exact fun withheld => unlisted (withheldNames_listed _ withheld)

/-- The first `Connection` field names every field that any of them names and
that is copied, but for those the proxy sets. -/
def FirstNamesAll (request : MessageBase) : Prop :=
  ∀ name ∈ KeyedList.keys request.fields,
    name ∈ connectionKeys request ∧ name.val ∉ requestDontCopyList ∧ name.val ∉ ownNames →
      name ∈ firstConnectionKeys request

instance (request : MessageBase) : Decidable (FirstNamesAll request) :=
  inferInstanceAs (Decidable (∀ name ∈ KeyedList.keys request.fields, _))

/-- The fields named by `Connection` tokens are all gone exactly when the first
`Connection` field names them. -/
theorem requestTransformCommon_screened_iff (ready : Prepared prepared host) :
    Screened request (requestTransformCommon prepared request) ↔ FirstNamesAll request := by
  refine ⟨fun screened name member ⟨token, unlisted, foreign⟩ => ?_, fun covered =>
    ⟨fun name member token => ?_, requestTransformCommon_withheld ready,
      requestTransformCommon_closes ready⟩⟩
  · by_contra kept
    have different : name ≠ key HeaderFields.transferEncoding := by
      intro same
      subst same
      exact unlisted (by decide)
    refine foreign (screened.named name ?_ token)
    rw [mem_keys_requestTransformCommon ready, mem_keys_strippedFields ready]
    exact .inr ⟨different, .inr (.inr (.inr ⟨kept, .inr ⟨member, unlisted⟩⟩))⟩
  · rcases (mem_keys_requestTransformCommon ready).mp member with
      rfl | ⟨_, rfl | rfl | rfl | stripped⟩
    · decide
    · decide
    · decide
    · decide
    · obtain ⟨kept, origin⟩ := (mem_keys_strippedFields ready).mp stripped
      rcases origin with rfl | ⟨copied, unlisted⟩
      · decide
      · by_contra foreign
        exact kept (covered name copied ⟨token, unlisted, foreign⟩)

theorem makeUpstreamRequest_ok {urls : UrlParser} {upstream : MessageBase}
    (built : makeUpstreamRequest urls .new request = .ok upstream) :
    ∃ uri prepared, Uri.ofText urls request.target = .ok uri ∧
      Prepared prepared (trim uri.host) ∧ prepared.target = uri.relativePath ∧
      prepared.method = request.method ∧ prepared.isRequest = true ∧
      upstream = requestTransformCommon prepared request := by
  obtain ⟨uri, made, checked⟩ := exists_ok_of_bind built
  dsimp only at checked
  split at checked
  · cases checked
  · cases checked
    exact ⟨uri, (applyUriNonProxy .new uri).setMethod request.method, made,
      MessageBase.fields_setHeader _ _ _, rfl, rfl, rfl, rfl⟩

theorem makeUpstreamHttpsRequest_ok {upstream : MessageBase}
    (built : makeUpstreamHttpsRequest .new request = .ok upstream) :
    ∃ value prepared, request.header HeaderFields.host = some value ∧
      Prepared prepared (trim value) ∧ prepared.target = request.target ∧
      prepared.method = request.method ∧ prepared.isRequest = true ∧
      upstream = requestTransformCommon prepared request := by
  simp only [makeUpstreamHttpsRequest] at built
  split at built
  · cases built
  · next value found =>
      cases built
      exact ⟨value, ((MessageBase.new.setTarget request.target).setMethod request.method).setHeader
        HeaderFields.host value, found, MessageBase.fields_setHeader _ _ _, rfl, rfl, rfl, rfl⟩

/-- An upstream request, plain or secure, is free of what the client's
`Connection` fields name exactly when the first of them names all of it. -/
theorem upstream_screened_iff (urls : UrlParser) {upstream : MessageBase}
    (built : makeUpstreamRequest urls .new request = .ok upstream ∨
      makeUpstreamHttpsRequest .new request = .ok upstream) :
    Screened request upstream ↔ FirstNamesAll request := by
  rcases built with plain | secure
  · obtain ⟨_, prepared, _, ready, _, _, _, rfl⟩ := makeUpstreamRequest_ok plain
    exact requestTransformCommon_screened_iff ready
  · obtain ⟨_, prepared, _, ready, _, _, _, rfl⟩ := makeUpstreamHttpsRequest_ok secure
    exact requestTransformCommon_screened_iff ready

/-- A request for `http://h.x/` with the given header lines after its host. -/
def requestWith (lines : List (Bytes × Bytes)) : MessageBase :=
  lines.foldl (fun message line => message.setHeaderPtr line.1 line.2)
    ((((MessageBase.new.setMethod (some (.other 1))).setTarget (ascii "http://h.x/")).setHeaderPtr
      (ascii "Host") (ascii "h.x")))

theorem single_connection_screened :
    ∃ upstream, makeUpstreamRequest .slicing .new
        (requestWith [(ascii "Connection", ascii "close, X-Key"), (ascii "X-Key", ascii "k")]) =
          .ok upstream ∧
      Screened (requestWith [(ascii "Connection", ascii "close, X-Key"),
        (ascii "X-Key", ascii "k")]) upstream :=
  ⟨_, rfl, (upstream_screened_iff .slicing (.inl rfl)).mpr (by decide)⟩

def twoConnectionRequest : MessageBase :=
  requestWith [(ascii "Connection", ascii "close"), (ascii "Connection", ascii "X-Key"),
    (ascii "X-Key", ascii "k")]

/-- What a second `Connection` field names is sent upstream. -/
theorem second_connection_field_ignored :
    ∃ upstream, makeUpstreamRequest .slicing .new twoConnectionRequest = .ok upstream ∧
      ¬ Screened twoConnectionRequest upstream := by
  refine ⟨_, rfl, fun screened => ?_⟩
  exact absurd (screened.named (key (ascii "X-Key")) (by decide) (by decide)) (by decide)

/-! ## The Host field -/

theorem named_host (ready : Prepared prepared host) :
    KeyedList.named (key HeaderFields.host) (requestTransformCommon prepared request).fields =
      if key HeaderFields.host ∈ firstConnectionKeys request then []
      else [⟨key HeaderFields.host, host⟩] := by
  rw [named_requestTransformCommon (by decide),
    KeyedList.named_put_ne (by decide)]
  split
  · next removed =>
      rw [KeyedList.named_eq_nil, mem_keys_strippedFields ready]
      exact fun kept => kept.1 removed
  · next kept =>
      have uncopied : KeyedList.named (key HeaderFields.host)
          (copied requestDontCopyList request) = [] := by
        rw [KeyedList.named_eq_nil, copied, KeyedList.mem_keys_restrict]
        exact fun member => absurd (of_decide_eq_true member.2) (by decide)
      rw [strippedFields, KeyedList.named_removeAll kept, KeyedList.named_putAll, uncopied, ready]
      rfl

theorem named_host_iff (ready : Prepared prepared (trim host)) :
    KeyedList.named (key HeaderFields.host) (requestTransformCommon prepared request).fields =
        [⟨key HeaderFields.host, host⟩] ↔
      key HeaderFields.host ∉ firstConnectionKeys request ∧ trim host = host := by
  rw [named_host ready]
  split
  · next removed => simp [removed]
  · next kept => simp [kept]

theorem removeHopByHop_start (message : MessageBase) (value : Bytes) :
    (removeHopByHop message value).target = message.target ∧
      (removeHopByHop message value).method = message.method ∧
      (removeHopByHop message value).isRequest = message.isRequest := by
  unfold removeHopByHop
  generalize tokens comma value = names
  induction names generalizing message with
  | nil => exact ⟨rfl, rfl, rfl⟩
  | cons name rest ih => simpa using ih (message.removeHeader (trim name))

theorem requestTransformCommon_start (prepared request : MessageBase) :
    (requestTransformCommon prepared request).target = prepared.target ∧
      (requestTransformCommon prepared request).method = prepared.method ∧
      (requestTransformCommon prepared request).isRequest = prepared.isRequest := by
  simp only [requestTransformCommon, MessageBase.target_setBody, MessageBase.method_setBody,
    MessageBase.isRequest_setBody, MessageBase.target_setVersionMinor,
    MessageBase.method_setVersionMinor, MessageBase.isRequest_setVersionMinor,
    MessageBase.target_setHeader, MessageBase.method_setHeader, MessageBase.isRequest_setHeader]
  cases request.header HeaderFields.connection with
  | none => exact ⟨rfl, rfl, rfl⟩
  | some value => exact removeHopByHop_start _ value

/-- The upstream request has the one `Host` field it was given, with the target
and the method of the client's request, exactly when the first `Connection`
field does not name `Host` and the value has no white space around it. -/
theorem upstream_host_iff (urls : UrlParser) (request : MessageBase) :
    (∀ uri upstream, Uri.ofText urls request.target = .ok uri →
      makeUpstreamRequest urls .new request = .ok upstream →
      ((KeyedList.named (key HeaderFields.host) upstream.fields =
            [⟨key HeaderFields.host, uri.host⟩] ∧
          upstream.target = uri.relativePath ∧ upstream.method = request.method) ↔
        key HeaderFields.host ∉ firstConnectionKeys request ∧ trim uri.host = uri.host)) ∧
    (∀ value upstream, request.header HeaderFields.host = some value →
      makeUpstreamHttpsRequest .new request = .ok upstream →
      ((KeyedList.named (key HeaderFields.host) upstream.fields =
            [⟨key HeaderFields.host, value⟩] ∧
          upstream.target = request.target ∧ upstream.method = request.method) ↔
        key HeaderFields.host ∉ firstConnectionKeys request ∧ trim value = value)) := by
  refine ⟨fun uri upstream made built => ?_, fun value upstream found built => ?_⟩
  · obtain ⟨other, prepared, same, ready, target, method, _, rfl⟩ := makeUpstreamRequest_ok built
    obtain rfl := Except.ok.inj (made.symm.trans same)
    obtain ⟨aimed, asked, _⟩ := requestTransformCommon_start prepared request
    rw [named_host_iff ready, aimed, asked]
    exact and_iff_left ⟨target, method⟩
  · obtain ⟨other, prepared, same, ready, target, method, _, rfl⟩ := makeUpstreamHttpsRequest_ok built
    obtain rfl := Option.some.inj (found.symm.trans same)
    obtain ⟨aimed, asked, _⟩ := requestTransformCommon_start prepared request
    rw [named_host_iff ready, aimed, asked]
    exact and_iff_left ⟨target, method⟩

/-- A request that names another field in its `Connection` field. -/
def ageRequest : MessageBase :=
  requestWith [(ascii "Connection", ascii "Age"), (ascii "Age", ascii "1")]

theorem plain_and_secure_host_kept :
    (∃ uri upstream, Uri.ofText .slicing ageRequest.target = .ok uri ∧
      makeUpstreamRequest .slicing .new ageRequest = .ok upstream ∧
      KeyedList.named (key HeaderFields.host) upstream.fields =
        [⟨key HeaderFields.host, uri.host⟩]) ∧
    ∃ upstream, makeUpstreamHttpsRequest .new ageRequest = .ok upstream ∧
      KeyedList.named (key HeaderFields.host) upstream.fields =
        [⟨key HeaderFields.host, ascii "h.x"⟩] :=
  ⟨⟨_, _, rfl, rfl, (((upstream_host_iff .slicing ageRequest).1 _ _ rfl rfl).mpr (by decide)).1⟩,
    ⟨_, rfl, (((upstream_host_iff .slicing ageRequest).2 _ _ rfl rfl).mpr (by decide)).1⟩⟩

/-- A client that names `Host` in its `Connection` field has it removed. -/
theorem connection_token_removes_host :
    ∃ uri upstream, Uri.ofText .slicing
        (requestWith [(ascii "Connection", ascii "Host")]).target = .ok uri ∧
      makeUpstreamRequest .slicing .new (requestWith [(ascii "Connection", ascii "Host")]) =
        .ok upstream ∧
      KeyedList.named (key HeaderFields.host) upstream.fields ≠
        [⟨key HeaderFields.host, uri.host⟩] :=
  ⟨_, _, rfl, rfl, by decide⟩

end Marvin.Helpers
