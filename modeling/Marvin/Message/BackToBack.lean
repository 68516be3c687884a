import Marvin.Http.Segments
import Marvin.Message.ReaderProgress

namespace Marvin.Message

open Marvin.Data Marvin.Http

/-! # Back-to-back messages

A stream of complete messages, cut into reads at any places, and an owner that
starts the next read from inside its callback.
-/

namespace FullMessageReader

variable {σ : Type} (http : HttpParser σ)

/-- The bytes are a complete message: given alone to `Parser::begin` and a
single `Parser::consume` they make the message, with nothing left over. -/
def Alone (bytes : Bytes) (message : MessageBase) : Prop :=
  bytes ≠ [] ∧ ∃ parser, parser.context.message = message ∧
    ∀ fuel, (Parser.begin http .new).consume http (fuel + 1) bytes false =
      .ok (parser, ⟨.endOfMessage, 0⟩)

/-- The parser is inside a message that the given bytes complete. -/
structure Awaits (parser : Parser σ) (bytes : Bytes) (message : MessageBase) : Prop where
  some : bytes ≠ []
  going : http.errno parser.machine = .ok
  unfinished : parser.context.messageDone = false
  built : parser.context.message.body.Built
  stops : http.errno (http.execute parser.machine bytes).state = .paused
  count : (http.execute parser.machine bytes).nparsed = bytes.length
  completes : ∃ after, parser.context.handle (http.execute parser.machine bytes).events = .ok after ∧
    after.message.Same message

variable {http} {parser : Parser σ} {bytes : Bytes} {message : MessageBase}

theorem Awaits.coherent (awaits : Awaits http parser bytes message) : parser.Coherent http := by
  simp [Parser.Coherent, awaits.unfinished, awaits.going]

theorem Alone.awaits (laws : http.Stopping) (alone : Alone http bytes message) :
    Awaits http (.begin http .new) bytes message := by
  obtain ⟨some, parser, rfl, consumed⟩ := alone
  have single := consumed 0
  rw [Parser.consume_eq laws (Parser.begin_coherent laws _) 0 some] at single
  cases appended : Parser.appendBytes http { Parser.begin http .new with started := true } bytes with
  | error fault => simp [appended] at single
  | ok result =>
      obtain ⟨after, nparsed⟩ := result
      simp only [appended, Except.ok.injEq, Prod.mk.injEq, ReturnValue.mk.injEq] at single
      obtain ⟨rfl, code, remaining⟩ := single
      obtain ⟨handled, machine, _, count⟩ := Parser.appendBytes_ok appended
      have bound := laws.bounded (Parser.begin http .new).machine bytes some
      have paused : http.errno after.machine = .paused := by
        simp only [Parser.codeAfter] at code
        split at code
        · cases code
        · assumption
        · split at code <;> cases code
      refine ⟨some, laws.fresh, rfl, Buffer.BufferChain.empty_built, machine ▸ paused, ?_,
        after.context, handled, .refl _⟩
      have same : nparsed = (http.execute (Parser.begin http .new).machine bytes).nparsed := count
      omega

theorem Awaits.part (stopping : http.Stopping) (splitting : http.Splitting) {first second : Bytes}
    (awaits : Awaits http parser (first ++ second) message) (some : first ≠ [])
    (more : second ≠ []) :
    ∃ after, { parser with started := true }.appendBytes http first = .ok (after, first.length) ∧
      Awaits http after second message := by
  obtain ⟨going, remaining, finer⟩ := HttpParser.Completes.part stopping splitting
    ⟨awaits.some, awaits.stops, awaits.count⟩ some more
  obtain ⟨whole, handled, same⟩ := awaits.completes
  obtain ⟨last, pieces, like⟩ := ParserContext.handle_finer (.refl awaits.built) finer handled
  obtain ⟨middle, begun, pieces⟩ := ParserContext.handle_append_ok pieces
  refine ⟨⟨(http.execute parser.machine first).state, middle, true⟩, ?_, more, going, ?_,
    ParserContext.handle_built awaits.built begun, remaining.stops, remaining.count, last,
    pieces, like.message.trans same⟩
  · simp [Parser.appendBytes, begun, bind, Except.bind, pure, Except.pure,
      stopping.whole parser.machine first going]
  · exact ParserContext.handle_unfinished begun awaits.unfinished
      (stopping.quiet awaits.going going)

theorem Awaits.complete (splitting : http.Splitting) (awaits : Awaits http parser bytes message)
    (rest : Bytes) :
    ∃ after, { parser with started := true }.appendBytes http (bytes ++ rest) =
        .ok (after, bytes.length) ∧
      http.errno after.machine = .paused ∧ after.context.message.Same message := by
  have halted : http.errno (http.execute parser.machine bytes).state ≠ .ok := by
    rw [awaits.stops]
    exact nofun
  have same := splitting.stopped parser.machine bytes rest awaits.some halted
  obtain ⟨after, handled, equal⟩ := awaits.completes
  refine ⟨⟨(http.execute parser.machine bytes).state, after, true⟩, ?_, awaits.stops, equal⟩
  simp [Parser.appendBytes, same, handled, bind, Except.bind, pure, Except.pure, awaits.count]

/-- The callbacks answer the given reads, one after the other, with success and
the given messages. -/
def Delivered : (call : Nat) → List Completion → List MessageBase → Prop
  | _, [], [] => True
  | call, completion :: log, message :: expected =>
      completion.call = call ∧ completion.err = .ok ∧ completion.message.Same message ∧
        Delivered (call + 1) log expected
  | _, _, _ => False

theorem Delivered.append {call : Nat} {first second : List Completion}
    {early late : List MessageBase} (before : Delivered call first early)
    (after : Delivered (call + early.length) second late) :
    Delivered call (first ++ second) (early ++ late) := by
  induction first generalizing call early with
  | nil =>
      cases early with
      | nil => exact after
      | cons => exact before.elim
  | cons completion rest ih =>
      cases early with
      | nil => exact before.elim
      | cons message early =>
          obtain ⟨number, err, same, later⟩ := before
          refine ⟨number, err, same, ih later ?_⟩
          rw [List.length_cons] at after
          rwa [Nat.add_assoc, Nat.add_comm 1]

/-- What is to come: the rest of the current message, if there is one, and
complete messages after it. -/
inductive Expects (http : HttpParser σ) : Parser σ → Bytes → List MessageBase → Prop where
  | nothing {parser : Parser σ} : Expects http parser [] []
  | message {parser : Parser σ} {bytes : Bytes} {message : MessageBase} {messages : List Bytes}
      {expected : List MessageBase} (awaits : Awaits http parser bytes message)
      (later : List.Forall₂ (Alone http) messages expected) :
      Expects http parser (bytes ++ messages.flatten) (message :: expected)

theorem expects_begin (laws : http.Stopping) {messages : List Bytes} {expected : List MessageBase}
    (alone : List.Forall₂ (Alone http) messages expected) :
    Expects http (.begin http .new) messages.flatten expected := by
  cases alone with
  | nil => exact .nothing
  | cons first later => exact .message (first.awaits laws) later

/-- The reader has delivered some messages, holds no bytes back and is reading. -/
structure Advanced (http : HttpParser σ) (reader final : FullMessageReader σ)
    (received : List MessageBase) (future : Bytes) (rest : List MessageBase) : Prop where
  log : ∃ fresh, final.log = reader.log ++ fresh ∧ Delivered reader.calls fresh received
  calls : final.calls = reader.calls + received.length
  drained : final.streambuffer = []
  reading : ∃ size, final.outstanding = [size]
  expects : Expects http final.parser future rest

theorem Advanced.prepend {reader middle final : FullMessageReader σ}
    {early late rest : List MessageBase} {future : Bytes}
    (log : ∃ fresh, middle.log = reader.log ++ fresh ∧ Delivered reader.calls fresh early)
    (calls : middle.calls = reader.calls + early.length)
    (advanced : Advanced http middle final late future rest) :
    Advanced http reader final (early ++ late) future rest := by
  obtain ⟨first, grown, delivered⟩ := log
  obtain ⟨second, more, following⟩ := advanced.log
  rw [calls] at following
  refine ⟨⟨first ++ second, ?_, delivered.append following⟩, ?_, advanced.drained,
    advanced.reading, advanced.expects⟩
  · rw [more, grown, List.append_assoc]
  · rw [advanced.calls, calls, List.length_append, Nat.add_assoc]

/-- The owner that reads the next message from inside its callback. -/
def eager : Owner := fun _ => .readAgain

theorem parse_part (stopping : http.Stopping) (splitting : http.Splitting)
    {reader : FullMessageReader σ} {second : Bytes} {messages : List Bytes}
    {expected : List MessageBase} (idle : reader.outstanding = [])
    (some : reader.streambuffer ≠ []) (more : second ≠ [])
    (awaits : Awaits http reader.parser (reader.streambuffer ++ second) message)
    (later : List.Forall₂ (Alone http) messages expected) :
    ∃ final, (∀ fuel, 1 ≤ fuel → pParseSome http eager fuel reader = .returned final) ∧
      Advanced http reader final [] (second ++ messages.flatten) (message :: expected) := by
  obtain ⟨after, appended, remaining⟩ := awaits.part stopping splitting some more
  let next := reader.taken after reader.streambuffer.length
  have drained : next.pReadSome.streambuffer = [] := List.drop_length
  refine ⟨next.pReadSome, fun fuel enough => ?_, ⟨[], by simp [next, taken, pReadSome], trivial⟩,
    rfl, drained, by simp [next, taken, pReadSome, idle], .message remaining later⟩
  obtain ⟨rest, rfl⟩ := Nat.exists_eq_add_of_le' enough
  have onward : respond http eager (pParseSome http eager rest) next = .returned next.pReadSome := by
    have going : http.errno next.parser.machine = .ok := remaining.going
    rw [respond, going]
  rw [pParseSome_parsed stopping awaits.coherent some appended, onward]
  exact pParseSome_drained drained rest

def handedOver (http : HttpParser σ) (reader : FullMessageReader σ) (parser : Parser σ)
    (rest : Bytes) : FullMessageReader σ :=
  ({ reader with parser, streambuffer := rest }.answered .ok).restarted http

theorem parse_complete (stopping : http.Stopping) (splitting : http.Splitting)
    {reader : FullMessageReader σ} {rest : Bytes} (awaits : Awaits http reader.parser bytes message)
    (stored : reader.streambuffer = bytes ++ rest) :
    ∃ after, after.context.message.Same message ∧
      ∀ fuel, pParseSome http eager (fuel + 1) reader =
        if rest = [] then .returned (reader.handedOver http after rest).pReadSome
        else (pParseSome http eager fuel (reader.handedOver http after rest)).andThen
          (pParseSome http eager fuel) := by
  obtain ⟨after, appended, paused, same⟩ := awaits.complete splitting rest
  have some : reader.streambuffer ≠ [] := by simp [stored, awaits.some]
  refine ⟨after, same, fun fuel => ?_⟩
  rw [← stored] at appended
  let next := reader.taken after bytes.length
  have left : next.streambuffer = rest := by simp [next, taken, stored]
  have held : (next.answered .ok).restarted http = reader.handedOver http after rest := by
    rw [handedOver, ← left]
    rfl
  have again : eager next.log.length = .readAgain := rfl
  have done : respond http eager (pParseSome http eager fuel) next =
      next.readCb http eager (pParseSome http eager fuel) .ok := by
    have stop : http.errno next.parser.machine = .paused := paused
    rw [respond, stop]
  rw [pParseSome_parsed stopping awaits.coherent some appended, done, readCb_again again, left,
    held]
  split
  · next none => exact pParseSome_drained (by rw [← held]; exact left.trans none) fuel
  · rfl

theorem handedOver_delivered {reader : FullMessageReader σ} {after : Parser σ} {rest : Bytes}
    (same : after.context.message.Same message) :
    ∃ completion, (reader.handedOver http after rest).log = reader.log ++ [completion] ∧
      Delivered reader.calls [completion] [message] :=
  ⟨_, rfl, rfl, rfl, same, trivial⟩

/-- The bytes at hand end inside the first part of a stream, or cover it. -/
theorem cut_within {buffer future first later : Bytes} (stream : buffer ++ future = first ++ later) :
    (∃ second, second ≠ [] ∧ first = buffer ++ second ∧ future = second ++ later) ∨
      ∃ rest, buffer = first ++ rest ∧ later = rest ++ future := by
  rcases List.append_eq_append_iff.mp stream with ⟨second, extended, arriving⟩ | covered
  · by_cases none : second = []
    · subst none
      exact .inr ⟨[], by simpa using extended.symm, by simpa using arriving.symm⟩
    · exact .inl ⟨second, none, extended, arriving⟩
  · exact .inr covered

theorem parse_delivers (stopping : http.Stopping) (splitting : http.Splitting)
    {reader : FullMessageReader σ} {future : Bytes} {expected : List MessageBase}
    (idle : reader.outstanding = []) (some : reader.streambuffer ≠ [])
    (expects : Expects http reader.parser (reader.streambuffer ++ future) expected) :
    ∃ bound final received rest, expected = received ++ rest ∧
      (∀ fuel, bound ≤ fuel → pParseSome http eager fuel reader = .returned final) ∧
      Advanced http reader final received future rest := by
  generalize stream : reader.streambuffer ++ future = whole at expects
  induction expected generalizing reader whole with
  | nil =>
      cases expects
      exact absurd (List.append_eq_nil_iff.mp stream).1 some
  | cons message expected ih =>
      cases expects with
      | @message bytes _ messages _ awaits later =>
          rcases cut_within stream with ⟨second, more, rfl, rfl⟩ | ⟨rest, stored, arriving⟩
          · obtain ⟨final, parsed, advanced⟩ :=
              parse_part stopping splitting idle some more awaits later
            exact ⟨1, final, [], message :: expected, rfl, parsed, advanced⟩
          · obtain ⟨after, same, parsed⟩ := parse_complete stopping splitting awaits stored
            obtain ⟨completion, grown, delivered⟩ :=
              @handedOver_delivered _ http message reader after rest same
            have following := expects_begin stopping later
            rw [arriving] at following
            by_cases none : rest = []
            · subst none
              refine ⟨1, (reader.handedOver http after []).pReadSome, [message], expected, rfl,
                fun fuel enough => ?_, ⟨[completion], grown, delivered⟩, rfl, rfl, ?_, following⟩
              · obtain ⟨less, rfl⟩ := Nat.exists_eq_add_of_le' enough
                rw [parsed, if_pos rfl]
              · simp [handedOver, restarted, answered, pReadSome, idle]
            · obtain ⟨bound, final, received, left, rfl, nested, advanced⟩ :=
                @ih (reader.handedOver http after rest) idle none _ rfl following
              refine ⟨bound + 1, final, message :: received, left, rfl, fun fuel enough => ?_,
                advanced.prepend ⟨[completion], grown, delivered⟩ rfl⟩
              obtain ⟨less, rfl⟩ := Nat.exists_eq_add_of_le' (Nat.le_of_add_left_le enough)
              rw [parsed, if_neg none, nested less (by omega)]
              exact pParseSome_drained advanced.drained less

theorem Expects.nil {expected : List MessageBase} (expects : Expects http parser [] expected) :
    expected = [] := by
  generalize stream : ([] : Bytes) = whole at expects
  cases expects with
  | nothing => rfl
  | message awaits later => exact absurd (List.append_eq_nil_iff.mp stream.symm).1 awaits.some

/-- The inputs of a run, dealt with one after the other. -/
def runInputs (http : HttpParser σ) (owner : Owner) (fuel : Nat) :
    List Input → FullMessageReader σ → Outcome σ
  | [], reader => .returned reader
  | input :: inputs, reader =>
      (step http owner fuel reader input).andThen (runInputs http owner fuel inputs)

theorem reads_deliver (stopping : http.Stopping) (splitting : http.Splitting)
    {reader : FullMessageReader σ} {reads : List Bytes} {expected : List MessageBase}
    (some : ∀ read ∈ reads, read ≠ []) (drained : reader.streambuffer = [])
    (reading : ∃ size, reader.outstanding = [size])
    (expects : Expects http reader.parser reads.flatten expected) :
    ∃ bound final,
      (∀ fuel, bound ≤ fuel →
        runInputs http eager fuel (reads.map .data) reader = .returned final) ∧
      Advanced http reader final expected [] [] := by
  induction reads generalizing reader expected with
  | nil =>
      obtain rfl := expects.nil
      exact ⟨0, reader, fun _ _ => rfl, ⟨[], by simp, trivial⟩, rfl, drained, reading, .nothing⟩
  | cons read reads ih =>
      obtain ⟨size, busy⟩ := reading
      let next : FullMessageReader σ := { reader with
        outstanding := reader.outstanding.tail
        streambuffer := reader.streambuffer ++ read }
      have stored : next.streambuffer = read := by simp [next, drained]
      have idle : next.outstanding = [] := by simp [next, busy]
      have filled : next.streambuffer ≠ [] := by
        rw [stored]
        exact some read List.mem_cons_self
      have coming : Expects http next.parser (next.streambuffer ++ reads.flatten) expected := by
        rw [stored]
        exact expects
      obtain ⟨bound, middle, received, rest, rfl, parsed, advanced⟩ :=
        parse_delivers stopping splitting idle filled coming
      obtain ⟨limit, final, run, last⟩ :=
        ih (fun read member => some read (List.mem_cons_of_mem _ member)) advanced.drained
          advanced.reading advanced.expects
      refine ⟨max bound limit, final, fun fuel enough => ?_,
        last.prepend advanced.log advanced.calls⟩
      have first : step http eager fuel reader (.data read) = .returned middle :=
        parsed fuel (by omega)
      rw [List.map_cons, runInputs, first]
      exact run fuel (by omega)

/-- An owner that reads again from inside its callback gets every message of
the stream, once and in order, as if each had been parsed alone, wherever the
reads cut the stream. -/
theorem back_to_back_delivered (stopping : http.Stopping) (splitting : http.Splitting)
    {messages : List Bytes} {expected : List MessageBase}
    (complete : List.Forall₂ (Alone http) messages expected)
    {reads : List Bytes} (some : ∀ read ∈ reads, read ≠ [])
    (cut : reads.flatten = messages.flatten) (size : Nat) :
    ∃ bound final,
      (∀ fuel, bound ≤ fuel →
        runInputs http eager fuel (.start :: reads.map .data) (new http size) = .returned final) ∧
      Delivered 1 final.log expected ∧ final.streambuffer = [] ∧
      ∃ request, final.outstanding = [request] := by
  let started : FullMessageReader σ := ((new http size).restarted http).pReadSome
  have expects : Expects http started.parser reads.flatten expected := by
    rw [cut]
    exact expects_begin stopping complete
  obtain ⟨bound, final, run, advanced⟩ :=
    @reads_deliver _ http stopping splitting started reads expected some rfl ⟨_, rfl⟩ expects
  obtain ⟨fresh, log, delivered⟩ := advanced.log
  refine ⟨bound, final, fun fuel enough => ?_, ?_, advanced.drained, advanced.reading⟩
  · have empty : (new http size).streambuffer = [] := rfl
    rw [runInputs, step_start empty fuel]
    exact run fuel enough
  · have all : final.log = fresh := log
    rw [all]
    exact delivered

def postRequest : Bytes :=
  ascii "POST /a HTTP/1.1\r\nHost: h.x\r\nContent-Length: 3\r\n\r\nabc"

/-- Two requests in three reads, cut inside a header value and inside the body. -/
def unevenReads : List Bytes :=
  [ascii "POST /a HTTP/1.1\r\nHost: h.", ascii "x\r\nContent-Length: 3\r\n\r\na",
    ascii "bcGET / HTTP/1.1\r\n\r\n"]

theorem uneven_reads_delivered :
    ∃ expected, List.Forall₂ (Alone (scripted [.post, .get])) [postRequest, getRequest] expected ∧
      ∃ bound final,
        (∀ fuel, bound ≤ fuel →
          runInputs (scripted [.post, .get]) eager fuel (.start :: unevenReads.map .data)
            (new (scripted [.post, .get]) 0) = .returned final) ∧
        Delivered 1 final.log expected ∧ final.streambuffer = [] ∧
        ∃ request, final.outstanding = [request] := by
  have post : ∃ message, Alone (scripted [.post, .get]) postRequest message :=
    ⟨_, by decide, _, rfl, fun fuel => rfl⟩
  have get : ∃ message, Alone (scripted [.post, .get]) getRequest message :=
    ⟨_, by decide, _, rfl, fun fuel => rfl⟩
  obtain ⟨first, post⟩ := post
  obtain ⟨second, get⟩ := get
  have complete : List.Forall₂ (Alone (scripted [.post, .get])) [postRequest, getRequest]
      [first, second] := .cons post (.cons get .nil)
  exact ⟨[first, second], complete, back_to_back_delivered (scripted_stopping _)
    (scripted_splitting _) complete (by decide) (by decide) 0⟩

end FullMessageReader

end Marvin.Message
