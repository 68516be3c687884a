import Marvin.Data.Runs
import Marvin.Http.ReadBack
import Marvin.SimpleProxy.CtlServer

namespace Marvin.SimpleProxy

open Marvin.Data Marvin.Buffer Marvin.Http Marvin.Message Marvin.Server

/-! # What a client of the control port sees

Every answer is a message of its own, which the client reads from the bytes as they
come.  The answer to a request for the filters lists them, one on a line, and can be
taken apart again.
-/

def lineFeed : UInt8 := 10

/-! ## Lines -/

theorem splitOnP_line {line : Bytes} (plain : lineFeed ∉ line) (rest : Bytes) :
    (line ++ lineFeed :: rest).splitOnP (· == lineFeed) =
      line :: rest.splitOnP (· == lineFeed) := by
  have inside : ∀ byte ∈ line, (byte == lineFeed) = false := fun byte member =>
    beq_false_of_ne fun same => plain (same ▸ member)
  exact List.splitOnP_append_cons_of_forall_mem inside lineFeed (beq_self_eq_true lineFeed) rest

theorem splitOnP_lines {lines : List Bytes} (plain : ∀ line ∈ lines, lineFeed ∉ line) (rest : Bytes) :
    ((lines.map (· ++ [lineFeed])).flatten ++ rest).splitOnP (· == lineFeed) =
      lines ++ rest.splitOnP (· == lineFeed) := by
  induction lines with
  | nil => rfl
  | cons line others ih =>
      have text : ((line :: others).map (· ++ [lineFeed])).flatten ++ rest =
          line ++ lineFeed :: ((others.map (· ++ [lineFeed])).flatten ++ rest) := by
        simp
      rw [text, splitOnP_line (plain line List.mem_cons_self),
        ih fun other member => plain other (List.mem_cons_of_mem _ member)]
      rfl

/-! ## The list of filters -/

/-- What a client takes from the answer to a filter request: what is on the lines
between the heading and the last line. -/
def listing (body : Bytes) : List Bytes :=
  let lines := (body.splitOnP (· == lineFeed)).dropWhile (· ≠ [])
  (lines.drop 2).dropLast.dropLast.map (List.drop (ascii "host regex: ").length)

/-- A note is empty or one line. -/
def Note (note : Bytes) : Prop :=
  note = [] ∨ ∃ line, line ≠ [] ∧ lineFeed ∉ line ∧ note = line ++ [lineFeed]

theorem note_of_parts (front : Bytes) {middle : Bytes} (back : Bytes) (some : front ++ back ≠ [])
    (plain : lineFeed ∉ front ∧ lineFeed ∉ middle ∧ lineFeed ∉ back) :
    Note (front ++ middle ++ (back ++ [lineFeed])) := by
  refine .inr ⟨front ++ middle ++ back, fun empty => some ?_, ?_, by simp⟩
  · simp only [List.append_eq_nil_iff] at empty ⊢
    exact ⟨empty.1.1, empty.2⟩
  · simp only [List.mem_append, not_or]
    exact ⟨⟨plain.1, plain.2.1⟩, plain.2.2⟩

theorem lineFeed_decimal (number : Nat) : lineFeed ∉ decimal number := fun member =>
  absurd (decimal_solid number _ member) (by decide)

theorem lineFeed_signedDecimal (number : Int) : lineFeed ∉ signedDecimal number := by
  have digits := lineFeed_decimal number.natAbs
  rw [signedDecimal]
  split
  · rw [List.mem_cons, not_or]
    exact ⟨by decide, digits⟩
  · exact digits

theorem editFilters_note {filters bits : List Bytes} (plain : ∀ bit ∈ bits, lineFeed ∉ bit) :
    Note (editFilters filters bits).2 := by
  cases bits with
  | nil => exact .inl rfl
  | cons command parameters =>
      have named : lineFeed ∉ command := plain command List.mem_cons_self
      simp only [editFilters]
      split
      · exact .inl rfl
      · split
        · cases parameters with
          | nil =>
              exact .inr ⟨ascii "list_remove requires a regex string as a parameter ", by decide,
                by decide, rfl⟩
          | cons parameter more =>
              have given : lineFeed ∉ parameter := plain parameter (by simp)
              dsimp only
              split
              · split
                · exact .inl rfl
                · exact note_of_parts (ascii "Index : ") (ascii " is too big.") (by decide)
                    ⟨by decide, lineFeed_signedDecimal _, by decide⟩
              · exact note_of_parts (ascii "bad request ") (ascii " is not an index ") (by decide)
                  ⟨by decide, given, by decide⟩
        · split
          · cases parameters with
            | nil =>
                exact .inr ⟨ascii "list_add requires an index  parameter ", by decide, by decide, rfl⟩
            | cons parameter more => exact .inl rfl
          · exact note_of_parts [] (ascii " is an invalid request") (by decide)
              ⟨by decide, named, by decide⟩

theorem listing_answer {filters : List Bytes} {note : Bytes} (noted : Note note)
    (plain : ∀ filter ∈ filters, lineFeed ∉ filter) :
    listing (note ++ ascii "\nHost regexes: \n" ++
      (filters.map fun filter => ascii "host regex: " ++ filter ++ ascii "\n").flatten ++
      ascii "complete ------\n") = filters := by
  let entries := filters.map fun filter => ascii "host regex: " ++ filter
  have entriesPlain : ∀ line ∈ entries, lineFeed ∉ line := by
    intro line member
    obtain ⟨filter, listed, rfl⟩ := List.mem_map.mp member
    rw [List.mem_append, not_or]
    exact ⟨by decide, plain filter listed⟩
  have body : note ++ ascii "\nHost regexes: \n" ++
      (filters.map fun filter => ascii "host regex: " ++ filter ++ ascii "\n").flatten ++
      ascii "complete ------\n" =
        note ++ ([] ++ lineFeed :: (ascii "Host regexes: " ++ lineFeed ::
          ((entries.map (· ++ [lineFeed])).flatten ++ (ascii "complete ------" ++ [lineFeed])))) := by
    simp only [entries, List.map_map, List.append_assoc]
    rfl
  have lines : ([] ++ lineFeed :: (ascii "Host regexes: " ++ lineFeed ::
      ((entries.map (· ++ [lineFeed])).flatten ++ (ascii "complete ------" ++ [lineFeed])))).splitOnP
        (· == lineFeed) =
      [] :: ascii "Host regexes: " :: (entries ++ [ascii "complete ------", []]) := by
    rw [splitOnP_line (by simp), splitOnP_line (by decide), splitOnP_lines entriesPlain,
      splitOnP_line (by decide)]
    rfl
  have found : ((note ++ ([] ++ lineFeed :: (ascii "Host regexes: " ++ lineFeed ::
      ((entries.map (· ++ [lineFeed])).flatten ++
        (ascii "complete ------" ++ [lineFeed]))))).splitOnP (· == lineFeed)).dropWhile (· ≠ []) =
      [] :: ascii "Host regexes: " :: (entries ++ [ascii "complete ------", []]) := by
    rcases noted with rfl | ⟨line, some, lined, rfl⟩
    · rw [List.nil_append, lines]
      rfl
    · rw [List.append_assoc, List.singleton_append, splitOnP_line lined, lines, List.dropWhile_cons,
        if_pos (by simpa using some)]
      rfl
  have last : ([ascii "complete ------", []] : List Bytes) = [ascii "complete ------"] ++ [[]] := rfl
  rw [listing, body, found, List.drop_succ_cons, List.drop_succ_cons, List.drop_zero, last,
    ← List.append_assoc, List.dropLast_concat, List.dropLast_concat, List.map_map]
  conv_rhs => rw [← List.map_id filters]
  apply List.map_congr_left
  intro filter _
  exact List.drop_left

/-! ## Filters stay on one line -/

def OnLines (proxy : Proxy) : Prop :=
  ∀ filter ∈ proxy.filters, lineFeed ∉ filter

theorem splitPath_plain {path : Bytes} (dispatched : find path = some .filter) :
    ∀ bit ∈ splitPath path, lineFeed ∉ bit := by
  obtain ⟨rest, rfl, accepted⟩ := find_filter_iff.mp dispatched
  have plain : lineFeed ∉ ascii "filter" ++ rest := by
    rw [List.mem_append, not_or]
    exact ⟨by decide, fun member => absurd (accepted lineFeed member) (by decide)⟩
  intro bit member present
  obtain ⟨front, back, same, _⟩ := run_of_mem_splitOnP member
  have text : ascii "filter" ++ rest = front ++ bit ++ back := same
  rw [text] at plain
  exact plain (List.mem_append_left _ (List.mem_append_right _ present))

theorem editFilters_plain {filters bits : List Bytes} (plain : ∀ filter ∈ filters, lineFeed ∉ filter)
    (bitsPlain : ∀ bit ∈ bits, lineFeed ∉ bit) :
    ∀ filter ∈ (editFilters filters bits).1, lineFeed ∉ filter := by
  cases bits with
  | nil => exact plain
  | cons command parameters =>
      simp only [editFilters]
      split
      · exact plain
      · split
        · cases parameters with
          | nil => exact plain
          | cons parameter more =>
              dsimp only
              split
              · split
                · exact fun filter member => plain filter (List.mem_of_mem_eraseIdx member)
                · exact plain
              · exact plain
        · split
          · cases parameters with
            | nil => exact plain
            | cons parameter more =>
                intro filter member
                rcases List.mem_append.mp member with old | new
                · exact plain filter old
                · rw [List.mem_singleton.mp new]
                  exact bitsPlain parameter (by simp)
          · exact plain

theorem respond_onLines {proxy : Proxy} (plain : OnLines proxy) (request : MessageBase) :
    OnLines (respond proxy request).1 := by
  unfold respond
  split
  · exact plain
  · next dispatched => exact editFilters_plain plain (splitPath_plain dispatched)
  · rw [pHandleBodies]
    dsimp only
    split
    · exact plain
    · split
      · exact plain
      · exact plain
  · exact plain

theorem afterRequests_onLines {proxy : Proxy} (plain : OnLines proxy) (requests : List MessageBase) :
    OnLines (afterRequests proxy requests) := by
  induction requests generalizing proxy with
  | nil => exact plain
  | cons request rest ih => exact ih (respond_onLines plain request)

theorem listing_respond {proxy : Proxy} {request : MessageBase} (plain : OnLines proxy)
    (dispatched : find request.target = some .filter) :
    listing (respond proxy request).2 = (respond proxy request).1.filters := by
  have bits := splitPath_plain dispatched
  simp only [respond, dispatched]
  exact listing_answer (editFilters_note bits) (editFilters_plain plain bits)

/-! ## Answers as they are read -/

/-- The callbacks http_parser makes for the text of an answer. -/
def answerCallbacks (body : Bytes) (leftover : HttpMethod) : List Event :=
  [.messageBegin, .status 200 (ascii "OK"), .headerField (ascii "CONTENT-TYPE"),
    .headerValue (ascii "plain/text"), .headerField (ascii "CONTENT-LENGTH"),
    .headerValue (decimal body.length), .headersComplete leftover 1 1] ++
    (if body = [] then [] else [.body body]) ++ [.messageComplete]

theorem answer_legible {body : Bytes} {chain : BufferChain}
    (made : BufferChain.ofText body = .ok chain) :
    (plainAnswer.setBody chain).Legible (.response 200 (ascii "OK")) ∧
      (plainAnswer.setBody chain).body.bytes = body ∧
      ∀ leftover, (plainAnswer.setBody chain).callbacks (.response 200 (ascii "OK")) leftover =
        answerCallbacks body leftover := by
  obtain ⟨tallied, text⟩ := BufferChain.ofText_tallied made
  have size : chain.size = body.length := tallied.size.trans (congrArg List.length text)
  have fields : (plainAnswer.setBody chain).fields =
      [⟨.ofText HeaderFields.contentType, ascii "plain/text"⟩,
        ⟨.ofText HeaderFields.contentLength, decimal body.length⟩] := by
    rw [MessageBase.fields_setBody, size]
    rfl
  have trimmed : (decimal body.length).dropWhile isBlank = decimal body.length :=
    dropWhile_isBlank (trim_decimal body.length)
  have keys : KeyedList.keys (plainAnswer.setBody chain).fields =
      [.ofText HeaderFields.contentType, .ofText HeaderFields.contentLength] := by
    rw [fields]
    rfl
  refine ⟨⟨⟨rfl, rfl, rfl⟩, ⟨by decide, by decide, by decide⟩, rfl, .inr rfl, ?_, ?_, ?_, ?_,
    tallied⟩, text, fun leftover => ?_⟩
  · rw [keys]
    decide
  · rw [fields]
    intro field member
    rcases List.mem_cons.mp member with rfl | last
    · exact ordinary_fixed (by decide)
    · rw [List.mem_singleton.mp last]
      exact ordinary_contentLength body.length
  · rw [keys]
    decide
  · rw [MessageBase.header_eq_lookup, fields]
    change some (decimal body.length) = some (decimal chain.size)
    rw [size]
  · have bytes : (plainAnswer.setBody chain).body.bytes = body := text
    rw [MessageBase.callbacks, fields, bytes, answerCallbacks]
    simp only [List.flatMap_cons, List.flatMap_nil, trimmed]
    rfl

/-! ## Every answer of a run -/

/-- Every answer that was written fits in a block. -/
def Short (control : Control) : Prop :=
  ∀ served ∈ control.log, served.written.body.length ≤ largestBody

theorem ctlApp_short (methodStr : HttpMethod → Bytes) {guard : Control → CtlCompletion → Prop} :
    (ctlApp methodStr).Shares guard CtlSession.Course Short (fun _ _ => True) (fun _ _ => True) where
  begins _ := trivial
  alone := trivial
  symm _ := trivial
  own := by
    intro control next before after completion course short _ enabled _ called
    refine ⟨?_, trivial⟩
    cases CtlSession.callback_turn course enabled called with
    | fails same ended =>
        subst same
        exact short
    | dispatches request response wrtr written reading made sent logged writes =>
        subst logged
        intro served member
        rcases List.mem_append.mp member with old | new
        · exact short served old
        · rw [List.mem_singleton.mp new]
          have body : written.body = (respond control.proxy request).2 := (write_answers made sent).2
          rw [body]
          exact make200Response_short made
    | continues request asked writing keeps stops reads =>
        subst stops
        exact short
    | closes request asked writing ends stops shut =>
        subst stops
        exact short
  others _ _ _ _ _ _ _ _ := ⟨trivial, trivial⟩
  outside _ other := other.elim

theorem afterRequests_take_succ (initial : Proxy) {requests : List MessageBase} {place : Nat}
    {request : MessageBase} (found : requests[place]? = some request) :
    afterRequests initial (requests.take (place + 1)) =
      (respond (afterRequests initial (requests.take place)) request).1 := by
  rw [List.take_add_one, found, afterRequests, List.foldl_append]
  rfl

/-- In every interleaving, each client reads the answer to its own request, however
the bytes are cut.  When it asked for or edited the filters, the lines of the answer
are the filters as they are once this request has taken effect. -/
theorem control_answers_read_back (methodStr : HttpMethod → Bytes) {initial : Proxy}
    (plain : OnLines initial) {maxConnections : Nat} {serving : Controlling}
    (reached : (Serving.runs (ctlApp methodStr) maxConnections ⟨initial, false, [], []⟩).Reaches
      Transition.unguarded serving)
    {place : Nat} {served : Served} (logged : serving.context.log[place]? = some served)
    {σ : Type} {http : HttpParser σ} (stopping : http.Stopping) (splitting : http.Splitting)
    (leftover : HttpMethod)
    (recognized : Draft.Recognized http (answerHead served.written.body ++ served.written.body)
      (answerCallbacks served.written.body leftover))
    {segments : List Bytes} (some : ∀ segment ∈ segments, segment ≠ [])
    (cut : segments.flatten = served.written.head ++ served.written.body)
    (bodyFits : ∀ piece, .body piece ∈ http.reports http.init segments →
      piece.length + 100 ≤ 1024 * 1024) :
    ∃ parser early, (∀ value ∈ early, Parser.Onward value) ∧
      (∀ fuel, (Parser.begin http .new).consumeAll http (fuel + 1) segments =
        .ok (parser, early ++ [⟨.endOfMessage, 0⟩])) ∧
      parser.context.message.statusCode = Option.some 200 ∧
      parser.context.message.reason = ascii "OK" ∧
      parser.context.message.body.bytes =
        (respond (afterRequests initial (serving.context.requests.take place)) served.request).2 ∧
      (find served.request.target = Option.some .filter →
        listing parser.context.message.body.bytes =
          (afterRequests initial (serving.context.requests.take (place + 1))).filters) := by
  have settles : (ctlApp methodStr).Settles (fun _ _ => True) CtlSession.Course :=
    ctlApp_settles methodStr
  have guarded := Serving.reaches_guarded reached
  have serial := (Serving.reaches_shared settles (ctlApp_shares methodStr initial)
    (Serial.listen initial) guarded).fits
  have short := (Serving.reaches_shared settles (ctlApp_short methodStr)
    (fun _ member => absurd member List.not_mem_nil) guarded).fits
  obtain ⟨head, body⟩ := serial.answered place served logged
  have bounded := short served (List.mem_of_getElem? logged)
  have asked : serving.context.requests[place]? = Option.some served.request := by
    rw [Control.requests, List.getElem?_map, logged]
    rfl
  rw [← body] at head
  obtain ⟨chain, made⟩ := ofText_exists bounded
  obtain ⟨legible, bytes, called⟩ := answer_legible made
  have response : make200Response served.written.body = .ok (plainAnswer.setBody chain) := by
    simp only [make200Response, MessageBase.setBodyText, made, bind, Except.bind]
    rfl
  have text : (plainAnswer.setBody chain).text methodStr (.response 200 (ascii "OK")) =
      answerHead served.written.body ++ served.written.body := by
    rw [MessageBase.text, ← headPieces_renders legible.opens legible.minor methodStr,
      make200Response_head response methodStr, bytes]
  rw [← text, ← called leftover] at recognized
  have wire : served.written.head ++ served.written.body =
      ((plainAnswer.setBody chain).headPieces methodStr).flatten ++
        (plainAnswer.setBody chain).body.bytes := by
    rw [make200Response_head response methodStr, bytes, head]
  rw [wire] at cut
  obtain ⟨parser, early, onward, consumed, _, agrees⟩ := legible.read_back stopping splitting
    leftover recognized some cut bodyFits
  obtain ⟨status, reason⟩ := agrees.response rfl
  have sent := (agrees.body.trans bytes).trans body
  refine ⟨parser, early, onward, consumed, status, reason, sent, fun dispatched => ?_⟩
  rw [sent, afterRequests_take_succ initial asked]
  exact listing_respond (afterRequests_onLines plain _) dispatched

def listedBody : Bytes :=
  ascii "\nHost regexes: \nhost regex: a\ncomplete ------\n"

/-- The answer to `/filter_list`, as http_parser reads it. -/
def listedScript : Script :=
  .closing (ascii "H") .messageBegin ++ .silent (ascii "TTP/1.1 200 ") ++
    .data (.status 200) (ascii "OK") ++ .silent (ascii "\r\n") ++
    .line (ascii "CONTENT-TYPE") (ascii "plain/text") ++
    .line (ascii "CONTENT-LENGTH") (ascii "46") ++
    .closing (ascii "\r\n") (.headersComplete .connect 1 1) ++ .data .body listedBody

def listedText : Bytes :=
  listedScript.map ScriptByte.byte

theorem stopping_logged :
    ∃ (serving : Controlling) (served : Served),
      (Serving.runs (ctlApp (fun _ => [])) 2 ⟨⟨[], false⟩, false, [], []⟩).Reaches
        Transition.unguarded serving ∧
      serving.context.log[1]? = some served ∧ served.request.target = ascii "/filter_list" ∧
      served.written.head ++ served.written.body = listedText ∧ served.written.body = listedBody := by
  obtain ⟨serving, served, followed, logged, target, text, body⟩ :
      ∃ (serving : Controlling) (served : Served),
        stopping.foldlM (Transition.attempt Transition.unguarded
          (Serving.Enabled (ctlApp (fun _ => []))) (Serving.step (ctlApp (fun _ => []))))
            (Serving.listen 2 ⟨⟨[], false⟩, false, [], []⟩) = some serving ∧
        serving.context.log[1]? = some served ∧ served.request.target = ascii "/filter_list" ∧
        served.written.head ++ served.written.body = listedText ∧
        served.written.body = listedBody :=
    ⟨_, _, rfl, rfl, rfl, by decide +kernel, by decide +kernel⟩
  exact ⟨serving, served, Transition.ofStep_follow (.initial rfl) followed, logged, target, text, body⟩

/-- The list of filters arrives in two segments, cut inside a pattern's line. -/
theorem listed_filters_read_back :
    ∃ serving : Controlling, ∃ parser early,
      (Serving.runs (ctlApp (fun _ => [])) 2 ⟨⟨[], false⟩, false, [], []⟩).Reaches
        Transition.unguarded serving ∧
      (Parser.begin (scripted [listedScript]) .new).consumeAll (scripted [listedScript]) 1
        [listedText.take 95, listedText.drop 95] = .ok (parser, early ++ [⟨.endOfMessage, 0⟩]) ∧
      listing parser.context.message.body.bytes =
        (afterRequests ⟨[], false⟩ (serving.context.requests.take 2)).filters := by
  obtain ⟨serving, served, reached, logged, target, text, body⟩ := stopping_logged
  have plain : OnLines ⟨[], false⟩ := fun filter member => absurd member List.not_mem_nil
  have called : answerCallbacks listedBody .connect =
      coalesce (listedScript.reports ++ [.messageComplete]) := by decide +kernel
  have whole : answerHead listedBody ++ listedBody = listedText := by decide +kernel
  have recognized : Draft.Recognized (scripted [listedScript])
      (answerHead served.written.body ++ served.written.body)
      (answerCallbacks served.written.body .connect) := by
    rw [body, whole, called]
    exact scripted_recognized (by simp [listedScript, Script.silent, ascii])
  have pieces : ∀ event ∈ (scripted [listedScript]).reports (scripted [listedScript]).init
      [listedText.take 95, listedText.drop 95], Draft.fitsBlock event = true := by decide +kernel
  obtain ⟨parser, early, _, read, _, _, _, listed⟩ := control_answers_read_back _ plain reached logged
    (scripted_stopping _) (scripted_splitting _) .connect recognized (by decide +kernel)
    (by rw [text]; simp) (fun piece member => of_decide_eq_true (pieces _ member))
  exact ⟨serving, parser, early, reached, read 0, listed (by rw [target]; decide)⟩

end Marvin.SimpleProxy
