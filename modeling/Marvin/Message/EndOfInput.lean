import Marvin.Http.ScriptedEnd
import Marvin.Message.BackToBack

namespace Marvin.Message

open Marvin.Data Marvin.Http

/-! # Reads that end with an error

A socket read that ends with an error and without bytes, while a message is being
read, is taken for the end of the input, whatever the error is.
-/

namespace ReadBufferStrategy

/-- No read asks for more: `FullMessageReader.requests_bounded`. -/
def maxRead : Nat := 2 * systemRmem

theorem recommendedBufferSize_le {current : Nat} (message : MessageBase) (headerDone : Bool)
    (bounded : headerDone = true → current ≤ maxRead) :
    (recommendedBufferSize current message headerDone).1 ≤ maxRead ∧
      (recommendedBufferSize current message headerDone).2 ≤ maxRead := by
  cases headerDone with
  | false =>
      have header : headerBuffer ≤ maxRead := by decide
      exact ⟨header, Nat.zero_le _⟩
  | true =>
      have limit := bounded rfl
      simp only [recommendedBufferSize, Bool.not_true, Bool.false_eq_true, if_false, and_self]
      split
      · split
        · exact Nat.le_trans (Nat.min_le_right _ _) (by decide)
        · decide
      · split
        · next small =>
            have below := Nat.lt_of_lt_of_le small (Nat.min_le_left _ _)
            simp only [maxRead, systemRmem] at below ⊢
            omega
        · exact limit

end ReadBufferStrategy

namespace FullMessageReader

open ReadBufferStrategy

variable {σ : Type} {http : HttpParser σ} {owner : Owner} {untilEof : σ → Prop}
  {reader next : FullMessageReader σ}

/-- Between inputs the reader holds no bytes, and reads the socket at most once,
for a message that is not complete. -/
structure Watching (http : HttpParser σ) (reader : FullMessageReader σ) : Prop where
  drained : reader.streambuffer = []
  single : reader.outstanding.length ≤ 1
  traced : reader.outstanding ≠ [] → ∃ events, Parser.Traced http reader.parser events
  sized : reader.outstanding ≠ [] → reader.currentBodyBufferSize ≤ maxRead
  requested : ∀ size ∈ reader.outstanding, size ≤ maxRead

/-- The parser is reading a message, or has stopped. -/
def Held (http : HttpParser σ) (parser : Parser σ) : Prop :=
  (∃ events, Parser.Traced http parser events) ∨
    (parser.Coherent http ∧ http.errno parser.machine ≠ .ok)

theorem Held.coherent (stopping : http.Stopping) {parser : Parser σ} (held : Held http parser) :
    parser.Coherent http := by
  rcases held with ⟨events, traced⟩ | ⟨coherent, _⟩
  · exact traced.coherent stopping
  · exact coherent

theorem Held.append (stopping : http.Stopping) {parser after : Parser σ} {data : Bytes}
    {nparsed : Nat} (held : Held http parser) (some : data ≠ [])
    (appended : { parser with started := true }.appendBytes http data = .ok (after, nparsed)) :
    Held http after := by
  by_cases going : http.errno after.machine = .ok
  · rcases held with ⟨events, traced⟩ | ⟨_, halted⟩
    · exact .inl ⟨_, traced.append some appended going⟩
    · have same := @Parser.appendBytes_stopped _ _ { parser with started := true } stopping
        halted data
      rw [same] at appended
      cases appended
      exact absurd going halted
  · have before : Parser.Coherent http { parser with started := true } := held.coherent stopping
    exact .inr ⟨Parser.appendBytes_coherent stopping before appended, going⟩

theorem Watching.of_idle (idle : reader.outstanding = []) (drained : reader.streambuffer = []) :
    reader.Watching http where
  drained := drained
  single := by simp [idle]
  traced busy := absurd idle busy
  sized busy := absurd idle busy
  requested := by simp [idle]

theorem Watching.tail (watching : reader.Watching http) : reader.outstanding.tail = [] := by
  have single := watching.single
  cases socket : reader.outstanding with
  | nil => rfl
  | cons size rest => simpa [socket] using single

theorem pReadSome_watching (idle : reader.outstanding = []) (drained : reader.streambuffer = [])
    (traced : ∃ events, Parser.Traced http reader.parser events)
    (bounded : reader.parser.context.headerDone = true → reader.currentBodyBufferSize ≤ maxRead) :
    reader.pReadSome.Watching http := by
  have sizes := recommendedBufferSize_le reader.parser.context.message
    reader.parser.context.headerDone bounded
  exact ⟨drained, by simp [pReadSome, idle], fun _ => traced, fun _ => sizes.2,
    by simpa [pReadSome, idle] using sizes.1⟩

theorem restarted_watching (idle : reader.outstanding = []) (drained : reader.streambuffer = []) :
    (reader.restarted http).pReadSome.Watching http :=
  pReadSome_watching idle drained ⟨[], Parser.begin_traced http⟩ (fun done => by cases done)

/-- A parse function that leaves the reader as it should be, whenever it returns. -/
def Safe (http : HttpParser σ) (parse : FullMessageReader σ → Outcome σ) : Prop :=
  ∀ reader next : FullMessageReader σ, reader.outstanding = [] → Held http reader.parser →
    reader.currentBodyBufferSize ≤ maxRead → parse reader = .returned next → next.Watching http

theorem readCb_watching {parse : FullMessageReader σ → Outcome σ} {err : ErrorType}
    (safe : Safe http parse) (settled : ∀ {reader}, reader.streambuffer = [] →
      parse reader = .returned reader)
    (idle : reader.outstanding = []) (held : Held http reader.parser)
    (bounded : reader.currentBodyBufferSize ≤ maxRead)
    (returned : (reader.readCb http owner parse err).andThen parse = .returned next) :
    next.Watching http := by
  cases reply : owner reader.log.length with
  | leave =>
      rw [readCb_leave reply] at returned
      exact safe (reader.answered err) next idle held bounded returned
  | readAgain =>
      rw [readCb_again reply] at returned
      split at returned
      · next drained =>
          have watching : ((reader.answered err).restarted http).pReadSome.Watching http :=
            restarted_watching idle drained
          rw [Outcome.andThen, settled watching.drained] at returned
          cases returned
          exact watching
      · cases inner : parse ((reader.answered err).restarted http) with
        | returned middle =>
            have watching : middle.Watching http :=
              safe ((reader.answered err).restarted http) _ idle
                (.inl ⟨[], Parser.begin_traced http⟩) bounded inner
            rw [inner, Outcome.andThen, settled watching.drained] at returned
            cases returned
            exact watching
        | thrown fault log => simp [inner, Outcome.andThen] at returned
        | outOfFuel log => simp [inner, Outcome.andThen] at returned

theorem pParseSome_watching (stopping : http.Stopping) (fuel : Nat) :
    Safe http (pParseSome http owner fuel) := by
  induction fuel with
  | zero =>
      intro reader next idle held bounded returned
      rw [pParseSome.eq_def] at returned
      split at returned
      · next drained =>
          cases returned
          exact .of_idle idle drained
      · cases returned
  | succ fuel ih =>
      intro reader next idle held bounded returned
      by_cases drained : reader.streambuffer = []
      · rw [pParseSome_drained drained] at returned
        cases returned
        exact .of_idle idle drained
      rw [pParseSome_succ stopping (held.coherent stopping) drained] at returned
      cases appended : { reader.parser with started := true }.appendBytes http
          reader.streambuffer with
      | error fault => simp [appended] at returned
      | ok result =>
          obtain ⟨after, nparsed⟩ := result
          have later := held.append stopping drained appended
          simp only [appended] at returned
          by_cases going : http.errno after.machine = .ok
          · have onward : respond http owner (pParseSome http owner fuel)
                (reader.taken after nparsed) = .returned (reader.taken after nparsed).pReadSome := by
              rw [respond, show http.errno (reader.taken after nparsed).parser.machine = .ok from going]
            have emptied : (reader.taken after nparsed).streambuffer = [] := by
              rw [taken, Parser.appendBytes_whole stopping appended going, List.drop_length]
            have traced : ∃ events, Parser.Traced http after events :=
              later.resolve_right fun halted => halted.2 going
            change (respond http owner _ (reader.taken after nparsed)).andThen _ = _ at returned
            have watching : (reader.taken after nparsed).pReadSome.Watching http :=
              pReadSome_watching idle emptied traced (fun _ => bounded)
            rw [onward, Outcome.andThen, pParseSome_drained watching.drained] at returned
            cases returned
            exact watching
          · obtain ⟨err, called⟩ := @respond_stopped _ http owner (reader.taken after nparsed) going
            change (respond http owner _ (reader.taken after nparsed)).andThen _ = _ at returned
            rw [called] at returned
            exact @readCb_watching _ _ _ (reader.taken after nparsed) _ _ _ ih
              (fun drained => pParseSome_drained drained fuel) idle later bounded returned

/-! ## The error -/

theorem readCb_once (idle : reader.outstanding = []) (drained : reader.streambuffer = [])
    (err : ErrorType) :
    ∃ next, (∀ parse, reader.readCb http owner parse err = .returned next) ∧
      next.Watching http ∧
      next.log = reader.log ++ [⟨reader.calls, err, reader.parser.context.message⟩] := by
  cases reply : owner reader.log.length with
  | readAgain =>
      refine ⟨((reader.answered err).restarted http).pReadSome, fun parse => ?_,
        restarted_watching idle drained, rfl⟩
      rw [readCb_again reply, if_pos drained]
  | leave =>
      refine ⟨reader.answered err, fun parse => ?_, .of_idle idle drained, rfl⟩
      rw [readCb_leave reply]

/-- A read that ends with an error is answered once, and with success exactly when
it brought no bytes and the body goes on until the end of the input. -/
theorem readError_answered (stopping : http.Stopping) (ending : http.Ending untilEof)
    (watching : reader.Watching http) {err : ErrorType} {bytesTransfered : Nat}
    (enabled : reader.Enabled (.readError err bytesTransfered)) :
    ∃ next completion,
      (∀ fuel, step http owner fuel reader (.readError err bytesTransfered) = .returned next) ∧
      next.Watching http ∧ next.log = reader.log ++ [completion] ∧
      (completion.err = .ok ↔ bytesTransfered = 0 ∧ untilEof reader.parser.machine) := by
  obtain ⟨busy, failed⟩ := enabled
  obtain ⟨events, traced⟩ := watching.traced busy
  have unfinished := traced.messageDone stopping
  have idle := watching.tail
  have reported (reader' : FullMessageReader σ) (idle : reader'.outstanding = [])
      (drained : reader'.streambuffer = []) (answer : ErrorType) (log : reader'.log = reader.log)
      (stepped : ∀ fuel, step http owner fuel reader (.readError err bytesTransfered) =
        reader'.readCb http owner (pParseSome http owner fuel) answer)
      (success : answer = .ok ↔ bytesTransfered = 0 ∧ untilEof reader.parser.machine) :
      ∃ next completion,
        (∀ fuel, step http owner fuel reader (.readError err bytesTransfered) = .returned next) ∧
        next.Watching http ∧ next.log = reader.log ++ [completion] ∧
        (completion.err = .ok ↔ bytesTransfered = 0 ∧ untilEof reader.parser.machine) := by
    obtain ⟨next, called, later, grown⟩ := @readCb_once _ http owner reader' idle drained answer
    exact ⟨next, _, fun fuel => (stepped fuel).trans (called _), later, log ▸ grown, success⟩
  by_cases none : bytesTransfered = 0
  · subst none
    by_cases inside : untilEof reader.parser.machine
    · obtain ⟨started, after, ended⟩ := traced.completed stopping ending inside
      refine reported { reader with outstanding := reader.outstanding.tail, parser := after } idle
        watching.drained .ok rfl (fun fuel => ?_) (by simp [inside])
      simp only [step, if_true, started, unfinished, Bool.not_false, Bool.and_self, pOnEof, ended]
      rfl
    · by_cases started : reader.parser.started = true
      · obtain ⟨after, code, ended, wrong⟩ := traced.truncated stopping ending inside started
        refine reported { reader with outstanding := reader.outstanding.tail, parser := after } idle
          watching.drained .parserError rfl (fun fuel => ?_) (by simp [inside])
        simp only [step, if_true, started, unfinished, Bool.not_false, Bool.and_self, pOnEof, ended]
        rcases wrong with rfl | rfl <;> rfl
      · refine reported { reader with outstanding := reader.outstanding.tail } idle
          watching.drained err rfl (fun fuel => ?_) (by simp [inside, failed])
        simp [step, started, pOnReadError]
  · refine reported { reader with outstanding := reader.outstanding.tail } idle watching.drained err
      rfl (fun fuel => ?_) (by simp [none, failed])
    simp [step, none, pOnReadError]

theorem data_parsed (stopping : http.Stopping) (watching : reader.Watching http)
    (busy : reader.outstanding ≠ []) {read : Bytes} (some : read ≠ []) {after : Parser σ}
    (appended : { reader.parser with started := true }.appendBytes http read =
      .ok (after, read.length)) (going : http.errno after.machine = .ok) :
    ∃ next, (∀ fuel, 1 ≤ fuel → step http owner fuel reader (.data read) = .returned next) ∧
      next.Watching http ∧ next.outstanding ≠ [] ∧ next.log = reader.log ∧ next.parser = after := by
  let filled : FullMessageReader σ := { reader with
    outstanding := reader.outstanding.tail, streambuffer := reader.streambuffer ++ read }
  have stored : filled.streambuffer = read := by simp [filled, watching.drained]
  let next := filled.taken after read.length
  have drained : next.streambuffer = [] := by simp [next, taken, stored]
  obtain ⟨events, traced⟩ := watching.traced busy
  refine ⟨next.pReadSome, fun fuel enough => ?_, ?_, by simp [pReadSome], rfl, rfl⟩
  · obtain ⟨less, rfl⟩ := Nat.exists_eq_add_of_le' enough
    have continues : respond http owner (pParseSome http owner less) next =
        .returned next.pReadSome := by
      rw [respond, show http.errno next.parser.machine = .ok from going]
    change pParseSome http owner (less + 1) filled = _
    have parsed : { filled.parser with started := true }.appendBytes http filled.streambuffer =
        .ok (after, read.length) := by
      rw [stored]
      exact appended
    rw [@pParseSome_parsed _ _ _ filled stopping (traced.coherent stopping) (stored.symm ▸ some) _ _
      parsed, continues]
    exact @pParseSome_drained _ _ _ next.pReadSome drained less
  · exact pReadSome_watching watching.tail drained ⟨_, traced.append some appended going⟩
      (fun _ => watching.sized busy)

theorem reached_watching (stopping : http.Stopping) (ending : http.Ending untilEof)
    {guard : FullMessageReader σ → Input → Prop} (reached : (runs http owner).Reaches guard reader) :
    reader.Watching http := by
  refine reached.invariant ?_ ?_
  · intro state given
    obtain ⟨size, rfl⟩ := given
    exact .of_idle rfl rfl
  · intro state input next watching _ taken
    obtain ⟨enabled, bound, stepped⟩ := taken
    have stepped := stepped bound (Nat.le_refl _)
    cases input with
    | start =>
        have empty : state.streambuffer = [] := watching.drained
        rw [step, asyncReadMessage_eq, if_pos empty] at stepped
        cases stepped
        exact restarted_watching enabled empty
    | data bytes =>
        exact pParseSome_watching stopping bound { state with
          outstanding := state.outstanding.tail, streambuffer := state.streambuffer ++ bytes } next
          watching.tail (.inl (watching.traced enabled)) (watching.sized enabled) stepped
    | readError err bytesTransfered =>
        obtain ⟨after, _, returned, later, _⟩ :=
          @readError_answered _ _ owner _ _ stopping ending watching _ _ enabled
        rw [returned] at stepped
        cases stepped
        exact later

theorem requests_bounded (stopping : http.Stopping) (ending : http.Ending untilEof)
    (reached : (runs http owner).Reaches Transition.unguarded reader) :
    ∀ size ∈ reader.outstanding, size ≤ maxRead :=
  (reached_watching stopping ending reached).requested

/-- A read error in any reached state is answered once.  The answer is a success
only if the socket reported the end of the file, exactly when that is what it
reported, or the read brought some bytes, or the message is not one whose body goes
on until the end of the input. -/
theorem success_means_eof_iff (stopping : http.Stopping) (ending : http.Ending untilEof)
    (reached : (runs http owner).Reaches Transition.unguarded reader) {err : ErrorType}
    {bytesTransfered : Nat} (enabled : reader.Enabled (.readError err bytesTransfered)) :
    ∃ next completion,
      (∀ fuel, step http owner fuel reader (.readError err bytesTransfered) = .returned next) ∧
      next.log = reader.log ++ [completion] ∧
      ((completion.err = .ok → err = .eof) ↔
        (err = .eof ∨ bytesTransfered ≠ 0 ∨ ¬ untilEof reader.parser.machine)) := by
  obtain ⟨next, completion, returned, _, log, success⟩ :=
    @readError_answered _ _ owner _ _ stopping ending (reached_watching stopping ending reached)
      _ _ enabled
  refine ⟨next, completion, returned, log, ?_⟩
  rw [success]
  tauto

def firstRead (http : HttpParser σ) : FullMessageReader σ :=
  ((new http 0).restarted http).pReadSome

theorem firstRead_reached : (runs http owner).Reaches Transition.unguarded (firstRead http) :=
  .step (.initial ⟨0, rfl⟩) trivial
    ⟨show (new http 0).Enabled .start from rfl, 0, fun _ _ => rfl⟩

theorem firstRead_watching : (firstRead http).Watching http :=
  restarted_watching rfl rfl

def sampleEof : HttpParser ScriptState :=
  scriptedUntilEof .untilEof inBody

theorem sampleEof_ending : sampleEof.Ending (fun state => inBody state = true) :=
  scriptedUntilEof_ending (by decide) (by decide)

def cutResponse : Bytes := ascii "HTTP/1.0 200 OK\r\n\r\nab"

/-- The reader behind two bytes of a body that goes on until the end of the input. -/
theorem body_reached :
    ∃ reader, (runs sampleEof eager).Reaches Transition.unguarded reader ∧
      reader.Watching sampleEof ∧ reader.outstanding ≠ [] ∧
      inBody reader.parser.machine = true := by
  obtain ⟨after, appended, going, inside⟩ : ∃ after,
      { (firstRead sampleEof).parser with started := true }.appendBytes sampleEof cutResponse =
        .ok (after, cutResponse.length) ∧ sampleEof.errno after.machine = .ok ∧
      inBody after.machine = true := ⟨_, rfl, rfl, by decide⟩
  obtain ⟨reader, stepped, watching, busy, _, rfl⟩ :=
    @data_parsed _ _ eager _ (scriptedUntilEof_stopping _ _) firstRead_watching (by decide)
      cutResponse (by decide) _ appended going
  have reached : (runs sampleEof eager).Reaches Transition.unguarded reader :=
    .step firstRead_reached trivial
      ⟨show (firstRead sampleEof).Enabled (.data cutResponse) by decide, 1, stepped⟩
  exact ⟨reader, reached, watching, busy, inside⟩

/-- The end of the file inside the body is answered with success. -/
theorem body_ended_by_eof :
    ∃ reader, (runs sampleEof eager).Reaches Transition.unguarded reader ∧
      reader.Enabled (.readError .eof 0) ∧ inBody reader.parser.machine = true ∧
      ∃ next completion,
        (∀ fuel, step sampleEof eager fuel reader (.readError .eof 0) = .returned next) ∧
        next.log = reader.log ++ [completion] ∧ completion.err = .ok := by
  obtain ⟨reader, reached, watching, busy, inside⟩ := body_reached
  have enabled : reader.Enabled (.readError .eof 0) := ⟨busy, by decide⟩
  obtain ⟨next, completion, returned, log, _⟩ :=
    success_means_eof_iff (scriptedUntilEof_stopping _ _) sampleEof_ending reached enabled
  obtain ⟨same, answer, again, _, logged, success⟩ :=
    @readError_answered _ _ eager _ _ (scriptedUntilEof_stopping _ _) sampleEof_ending watching
      .eof 0 enabled
  cases (returned 0).symm.trans (again 0)
  obtain rfl : completion = answer := by simpa using log.symm.trans logged
  exact ⟨reader, reached, enabled, inside, next, completion, returned, log,
    success.mpr ⟨rfl, inside⟩⟩

/-- A cancelled read inside the body is answered with success. -/
theorem cancelled_body_delivered :
    ∃ reader, (runs sampleEof eager).Reaches Transition.unguarded reader ∧
      reader.Enabled (.readError .operationAborted 0) ∧ inBody reader.parser.machine = true ∧
      ∃ next completion,
        (∀ fuel, step sampleEof eager fuel reader (.readError .operationAborted 0) =
          .returned next) ∧
        next.log = reader.log ++ [completion] ∧ completion.err = .ok := by
  obtain ⟨reader, reached, watching, busy, inside⟩ := body_reached
  obtain ⟨next, completion, returned, _, log, success⟩ :=
    @readError_answered _ _ eager _ _ (scriptedUntilEof_stopping _ _) sampleEof_ending watching
      .operationAborted 0 ⟨busy, by decide⟩
  exact ⟨reader, reached, ⟨busy, by decide⟩, inside, next, completion, returned, log,
    success.mpr ⟨rfl, inside⟩⟩

/-! ## Truncated messages -/

theorem data_partway (stopping : http.Stopping) (splitting : http.Splitting)
    (reporting : http.Reporting) {given read rest : Bytes} {events : List Event}
    (watching : reader.Watching http) (busy : reader.outstanding ≠ [])
    (partway : Partway http given reader.parser events)
    (delimited : Delimited http untilEof (given ++ read ++ rest)) (some : read ≠ []) (more : rest ≠ [])
    (fits : read.length ≤ maxRead) :
    ∃ next events, (∀ fuel, 1 ≤ fuel → step http owner fuel reader (.data read) = .returned next) ∧
      next.Watching http ∧ next.outstanding ≠ [] ∧ next.log = reader.log ∧
      Partway http (given ++ read) next.parser events := by
  have room : read.length + 100 ≤ 1024 * 1024 := by
    simp only [maxRead, systemRmem] at fits
    omega
  obtain ⟨after, appended, going, onward⟩ :=
    partway.append stopping splitting reporting delimited some more room
  obtain ⟨next, stepped, later, reading, log, rfl⟩ :=
    @data_parsed _ _ owner _ stopping watching busy read some _ appended going
  exact ⟨next, _, stepped, later, reading, log, onward⟩

theorem reads_partway (stopping : http.Stopping) (splitting : http.Splitting)
    (reporting : http.Reporting) {reads : List Bytes} {given rest : Bytes} {events : List Event}
    (watching : reader.Watching http) (busy : reader.outstanding ≠ [])
    (partway : Partway http given reader.parser events)
    (delimited : Delimited http untilEof (given ++ reads.flatten ++ rest)) (more : rest ≠ [])
    (some : ∀ read ∈ reads, read ≠ []) (fits : ∀ read ∈ reads, read.length ≤ maxRead) :
    ∃ final events,
      (∀ fuel, 1 ≤ fuel → runInputs http owner fuel (reads.map .data) reader = .returned final) ∧
      final.Watching http ∧ final.outstanding ≠ [] ∧ final.log = reader.log ∧
      Partway http (given ++ reads.flatten) final.parser events := by
  induction reads generalizing reader given events with
  | nil => exact ⟨reader, events, fun _ _ => rfl, watching, busy, rfl, by simpa using partway⟩
  | cons read reads ih =>
      rw [List.flatten_cons, ← List.append_assoc] at delimited ⊢
      obtain ⟨middle, _, taken, settled, reading, log, further⟩ :=
        @data_partway _ _ owner _ _ stopping splitting reporting given read (reads.flatten ++ rest)
          _ watching busy partway (by rwa [← List.append_assoc]) (some read List.mem_cons_self)
          (List.append_ne_nil_of_right_ne_nil _ more) (fits read List.mem_cons_self)
      obtain ⟨final, heard, run, last, waits, same, onward⟩ := ih settled reading further delimited
        (fun read member => some read (List.mem_cons_of_mem _ member))
        (fun read member => fits read (List.mem_cons_of_mem _ member))
      refine ⟨final, heard, fun fuel enough => ?_, last, waits, same.trans log, onward⟩
      rw [List.map_cons, runInputs, taken fuel enough]
      exact run fuel enough

theorem runInputs_append (fuel : Nat) (first second : List Input) (reader : FullMessageReader σ) :
    runInputs http owner fuel (first ++ second) reader =
      (runInputs http owner fuel first reader).andThen (runInputs http owner fuel second) := by
  induction first generalizing reader with
  | nil => rfl
  | cons input rest ih =>
      rw [List.cons_append, runInputs, runInputs]
      cases step http owner fuel reader input with
      | returned next => exact ih next
      | thrown | outOfFuel => rfl

/-- A message that says where it ends, cut short by a read error: the read is
answered once, and not with success, wherever the bytes end and however they were
read. -/
theorem truncated_not_delivered (stopping : http.Stopping) (splitting : http.Splitting)
    (ending : http.Ending untilEof) (reporting : http.Reporting) {front rest : Bytes}
    (delimited : Delimited http untilEof (front ++ rest)) (more : rest ≠ []) {reads : List Bytes}
    (cut : reads.flatten = front) (some : ∀ read ∈ reads, read ≠ [])
    (fits : ∀ read ∈ reads, read.length ≤ maxRead) {err : ErrorType} (failed : err ≠ .ok)
    (idle : reader.outstanding = []) (drained : reader.streambuffer = []) :
    ∃ final completion,
      (∀ fuel, 1 ≤ fuel →
        runInputs http owner fuel (.start :: reads.map .data ++ [.readError err 0]) reader =
          .returned final) ∧
      final.log = reader.log ++ [completion] ∧ completion.err ≠ .ok := by
  let started := (reader.restarted http).pReadSome
  have busy : started.outstanding ≠ [] := by simp [started, pReadSome]
  obtain ⟨middle, events, run, watching, reading, log, partway⟩ :=
    @reads_partway _ _ owner _ started stopping splitting reporting reads [] rest []
      (restarted_watching idle drained) busy (begin_partway http) (by simpa [cut] using delimited)
      more some fits
  have outside : ¬ untilEof middle.parser.machine := by
    rw [List.nil_append, cut] at partway
    by_cases none : front = []
    · rw [partway.fresh none]
      exact fun inside => ending.opened .init inside rfl
    · rw [partway.machine none]
      exact delimited.counted front rest rfl none more
  obtain ⟨final, completion, answered, _, grown, success⟩ :=
    @readError_answered _ _ owner _ _ stopping ending watching err 0 ⟨reading, failed⟩
  refine ⟨final, completion, fun fuel enough => ?_, ?_, fun ok => outside (success.mp ok).2⟩
  · have begun : step http owner fuel reader .start = .returned started := by
      rw [step, asyncReadMessage_eq, if_pos drained]
    rw [List.cons_append, runInputs, begun]
    change runInputs http owner fuel _ started = _
    rw [runInputs_append, run fuel enough]
    change (step http owner fuel middle _).andThen _ = _
    rw [answered fuel]
    rfl
  · rw [grown, log]
    rfl

/-- A request with a body, cut inside its second header line. -/
theorem cut_request_not_delivered :
    ∃ final completion,
      (∀ fuel, 1 ≤ fuel →
        runInputs (scriptedUntilEof .post (fun _ => false)) eager fuel
          [.start, .data (ascii "POST /a HTTP/1.1\r\nHo"), .data (ascii "st: h.x\r\nCont"),
            .readError .eof 0] (new (scriptedUntilEof .post (fun _ => false)) 0) =
          .returned final) ∧
      final.log = [completion] ∧ completion.err ≠ .ok := by
  have sample : Script.Sample .post := by decide
  have delimited : Delimited (scriptedUntilEof .post (fun _ => false))
      (fun state => (fun _ => false) state = true)
      (ascii "POST /a HTTP/1.1\r\nHost: h.x\r\nCont" ++ ascii "ent-Length: 3\r\n\r\nabc") :=
    ⟨by decide, by decide, fun _ _ _ _ _ => Bool.false_ne_true⟩
  exact @truncated_not_delivered _ _ eager _ (new _ 0) (scriptedUntilEof_stopping _ _)
    (scriptedUntilEof_splitting _ _) (scriptedUntilEof_ending sample rfl)
    (scriptedUntilEof_reporting sample) _ _ delimited (by decide)
    [ascii "POST /a HTTP/1.1\r\nHo", ascii "st: h.x\r\nCont"] (by decide) (by decide)
    (by decide) .eof (by decide) rfl rfl

end FullMessageReader

end Marvin.Message
