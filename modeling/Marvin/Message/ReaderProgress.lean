import Marvin.Data.Transition
import Marvin.Http.ScriptedParser
import Marvin.Message.FullMessageReader

namespace Marvin.Message

open Marvin.Data Marvin.Http

/-! # Progress of the message reader

The loop of `p_parse_some` goes on while bytes are left in the stream buffer,
but after an error or the end of a message only a new read makes the parser
take bytes again.  So an entry into the loop comes to an end, and answers every
read at most once, exactly when every stop that leaves bytes behind is followed
by a read from inside the callback.
-/

namespace FullMessageReader

variable {σ : Type} (http : HttpParser σ) (owner : Owner)

/-- The bytes in the stream buffer are used up: by the message being parsed, or
by it and those that the owner reads from inside its callback.  `answered`
counts the callbacks made before.  A body too big to store ends the parsing
with an exception. -/
inductive Drains : (answered : Nat) → Parser σ → Bytes → Prop where
  | empty {answered : Nat} {parser : Parser σ} : Drains answered parser []
  | thrown {answered : Nat} {parser : Parser σ} {buffer : Bytes} {fault : Fault}
      (refused : { parser with started := true }.appendBytes http buffer = .error fault) :
      Drains answered parser buffer
  | whole {answered : Nat} {parser after : Parser σ} {buffer : Bytes}
      (parsed : { parser with started := true }.appendBytes http buffer =
        .ok (after, buffer.length)) : Drains answered parser buffer
  | reread {answered nparsed : Nat} {parser after : Parser σ} {buffer : Bytes}
      (parsed : { parser with started := true }.appendBytes http buffer = .ok (after, nparsed))
      (left : nparsed < buffer.length) (again : owner answered = .readAgain)
      (rest : Drains (answered + 1) (.begin http .new) (buffer.drop nparsed)) :
      Drains answered parser buffer

/-- The condition on an input: when bytes arrive, they are used up. -/
def Clean (reader : FullMessageReader σ) : Input → Prop
  | .data bytes =>
      Drains http owner reader.log.length reader.parser (reader.streambuffer ++ bytes)
  | .start | .readError _ _ => True

/-- The entry comes to an end, and no read has been answered twice. -/
def Settles (reader : FullMessageReader σ) (input : Input) : Prop :=
  ∃ bound outcome, (∀ fuel, bound ≤ fuel → step http owner fuel reader input = outcome) ∧
    (∀ log, outcome ≠ .outOfFuel log) ∧ (outcome.log.map Completion.call).Nodup

def runs : Transition (FullMessageReader σ) Input where
  initial reader := ∃ size, reader = new http size
  step reader input next :=
    reader.Enabled input ∧ ∃ bound, ∀ fuel, bound ≤ fuel →
      step http owner fuel reader input = .returned next

def Unanswered (reader : FullMessageReader σ) : Prop :=
  ∀ completion ∈ reader.log, completion.call < reader.calls

structure Resting (reader : FullMessageReader σ) : Prop where
  drained : reader.streambuffer = []
  distinct : (reader.log.map Completion.call).Nodup
  numbered : ∀ completion ∈ reader.log, completion.call ≤ reader.calls
  single : reader.outstanding.length ≤ 1
  reading : reader.outstanding ≠ [] → reader.Unanswered ∧ reader.parser.Coherent http

/-- A read is in progress and the socket is not being read. -/
structure Pending (reader : FullMessageReader σ) : Prop where
  distinct : (reader.log.map Completion.call).Nodup
  unanswered : reader.Unanswered
  idle : reader.outstanding = []

def Finished : Outcome σ → Prop
  | .returned reader => reader.Resting http
  | .thrown _ log => (log.map Completion.call).Nodup
  | .outOfFuel _ => False

/-- What the body of the loop does once `consume` has returned. -/
def respond (parse : FullMessageReader σ → Outcome σ) (reader : FullMessageReader σ) : Outcome σ :=
  match http.errno reader.parser.machine with
  | .failed _ => reader.readCb http owner parse .parserError
  | .paused => reader.readCb http owner parse .ok
  | .ok => .returned reader.pReadSome

def answered (reader : FullMessageReader σ) (err : ErrorType) : FullMessageReader σ :=
  { reader with log := reader.log ++ [⟨reader.calls, err, reader.parser.context.message⟩] }

def restarted (reader : FullMessageReader σ) : FullMessageReader σ :=
  { reader with calls := reader.calls + 1, parser := .begin http .new }

def taken (reader : FullMessageReader σ) (parser : Parser σ) (nparsed : Nat) :
    FullMessageReader σ :=
  { reader with parser, streambuffer := reader.streambuffer.drop nparsed }

/-- The loop comes to an end, whatever fuel it is given beyond some bound. -/
def Finishes (reader : FullMessageReader σ) : Prop :=
  ∃ bound outcome, (∀ fuel, bound ≤ fuel → pParseSome http owner fuel reader = outcome) ∧
    Finished http outcome

variable {http owner} {reader : FullMessageReader σ} {parse : FullMessageReader σ → Outcome σ}

theorem Pending.answered_distinct (pending : reader.Pending) (err : ErrorType) :
    ((reader.answered err).log.map Completion.call).Nodup := by
  simp only [answered, List.map_append, List.map_cons, List.map_nil]
  refine pending.distinct.append (List.nodup_singleton _) ?_
  intro call earlier last
  obtain ⟨completion, member, rfl⟩ := List.mem_map.mp earlier
  have before := pending.unanswered completion member
  rw [List.mem_singleton.mp last] at before
  exact Nat.lt_irrefl _ before

theorem Pending.answered_numbered (pending : reader.Pending) (err : ErrorType) :
    ∀ completion ∈ (reader.answered err).log, completion.call ≤ reader.calls := by
  intro completion member
  rcases List.mem_append.mp member with earlier | last
  · exact Nat.le_of_lt (pending.unanswered completion earlier)
  · rw [List.mem_singleton.mp last]

theorem Pending.restarted (pending : reader.Pending) (err : ErrorType) :
    ((reader.answered err).restarted http).Pending where
  distinct := pending.answered_distinct err
  unanswered completion member := Nat.lt_succ_of_le (pending.answered_numbered err completion member)
  idle := pending.idle

theorem pReadSome_resting (pending : reader.Pending) (drained : reader.streambuffer = [])
    (coherent : reader.parser.Coherent http) : reader.pReadSome.Resting http where
  drained := drained
  distinct := pending.distinct
  numbered completion member := Nat.le_of_lt (pending.unanswered completion member)
  single := by simp [pReadSome, pending.idle]
  reading _ := ⟨pending.unanswered, coherent⟩

theorem asyncReadMessage_eq :
    reader.asyncReadMessage http parse .new =
      if reader.streambuffer = [] then .returned (reader.restarted http).pReadSome
      else parse (reader.restarted http) := by
  simp only [asyncReadMessage, ne_eq, ite_not]
  rfl

theorem readCb_again (again : owner reader.log.length = .readAgain) (err : ErrorType) :
    reader.readCb http owner parse err =
      if reader.streambuffer = [] then
        .returned ((reader.answered err).restarted http).pReadSome
      else parse ((reader.answered err).restarted http) := by
  simp only [readCb, again]
  exact asyncReadMessage_eq

theorem readCb_leave (leave : owner reader.log.length = .leave) (err : ErrorType) :
    reader.readCb http owner parse err = .returned (reader.answered err) := by
  simp only [readCb, leave]
  rfl

theorem readCb_finished (laws : http.Stopping) (pending : reader.Pending)
    (drained : reader.streambuffer = []) (err : ErrorType) :
    Finished http (reader.readCb http owner parse err) := by
  cases reply : owner reader.log.length with
  | readAgain =>
      rw [readCb_again reply, if_pos drained]
      exact pReadSome_resting (pending.restarted err) drained (Parser.begin_coherent laws _)
  | leave =>
      rw [readCb_leave reply]
      exact ⟨drained, pending.answered_distinct err, pending.answered_numbered err,
        by simp [answered, pending.idle], fun busy => absurd pending.idle busy⟩

theorem pParseSome_drained (drained : reader.streambuffer = []) (fuel : Nat) :
    pParseSome http owner fuel reader = .returned reader := by
  rw [pParseSome.eq_def, if_pos drained]

theorem pParseSome_succ (laws : http.Stopping) (coherent : reader.parser.Coherent http)
    (some : reader.streambuffer ≠ []) (fuel : Nat) :
    pParseSome http owner (fuel + 1) reader =
      match { reader.parser with started := true }.appendBytes http reader.streambuffer with
      | .error fault => .thrown fault reader.log
      | .ok (parser, nparsed) =>
          (respond http owner (pParseSome http owner fuel) { reader with
            parser, streambuffer := reader.streambuffer.drop nparsed }).andThen
              (pParseSome http owner fuel) := by
  rw [pParseSome, if_neg some, Parser.consumeStreambuf_eq laws coherent fuel some]
  cases { reader.parser with started := true }.appendBytes http reader.streambuffer with
  | error fault => rfl
  | ok result =>
      obtain ⟨after, nparsed⟩ := result
      simp only [Parser.codeAfter, respond]
      cases http.errno after.machine with
      | failed code => rfl
      | paused => rfl
      | ok => cases after.context.headerDone <;> rfl

theorem pParseSome_parsed (laws : http.Stopping) (coherent : reader.parser.Coherent http)
    (some : reader.streambuffer ≠ []) {after : Parser σ} {nparsed : Nat}
    (parsed : { reader.parser with started := true }.appendBytes http reader.streambuffer =
      .ok (after, nparsed)) (fuel : Nat) :
    pParseSome http owner (fuel + 1) reader =
      (respond http owner (pParseSome http owner fuel) (reader.taken after nparsed)).andThen
        (pParseSome http owner fuel) := by
  rw [pParseSome_succ laws coherent some, parsed]
  rfl

theorem andThen_finished {outcome : Outcome σ} (finished : Finished http outcome) (fuel : Nat) :
    outcome.andThen (pParseSome http owner fuel) = outcome := by
  cases outcome with
  | returned reader => exact pParseSome_drained finished.drained fuel
  | thrown => rfl
  | outOfFuel => rfl

theorem respond_finished (laws : http.Stopping) (pending : reader.Pending)
    (coherent : reader.parser.Coherent http) (drained : reader.streambuffer = []) :
    Finished http (respond http owner parse reader) := by
  unfold respond
  cases http.errno reader.parser.machine with
  | failed code => exact readCb_finished laws pending drained _
  | paused => exact readCb_finished laws pending drained _
  | ok => exact pReadSome_resting pending drained coherent

theorem readCb_drained (drained : reader.streambuffer = []) (err : ErrorType)
    (parse other : FullMessageReader σ → Outcome σ) :
    reader.readCb http owner parse err = reader.readCb http owner other err := by
  cases reply : owner reader.log.length with
  | readAgain => rw [readCb_again reply, readCb_again reply, if_pos drained, if_pos drained]
  | leave => rw [readCb_leave reply, readCb_leave reply]

theorem respond_drained (drained : reader.streambuffer = [])
    (parse other : FullMessageReader σ → Outcome σ) :
    respond http owner parse reader = respond http owner other reader := by
  unfold respond
  cases http.errno reader.parser.machine with
  | failed code => exact readCb_drained drained _ parse other
  | paused => exact readCb_drained drained _ parse other
  | ok => rfl

theorem respond_stopped (halted : http.errno reader.parser.machine ≠ .ok) :
    ∃ err, ∀ parse, respond http owner parse reader = reader.readCb http owner parse err := by
  unfold respond
  cases stop : http.errno reader.parser.machine with
  | failed code => exact ⟨.parserError, fun _ => rfl⟩
  | paused => exact ⟨.ok, fun _ => rfl⟩
  | ok => exact absurd stop halted

theorem Pending.resting (pending : reader.Pending) (drained : reader.streambuffer = []) :
    reader.Resting http where
  drained := drained
  distinct := pending.distinct
  numbered completion member := Nat.le_of_lt (pending.unanswered completion member)
  single := by simp [pending.idle]
  reading busy := absurd pending.idle busy

theorem Pending.parsed (pending : reader.Pending) (parser : Parser σ) (streambuffer : Bytes) :
    { reader with parser, streambuffer }.Pending :=
  ⟨pending.distinct, pending.unanswered, pending.idle⟩

theorem Pending.taken (pending : reader.Pending) (parser : Parser σ) (nparsed : Nat) :
    (reader.taken parser nparsed).Pending :=
  pending.parsed parser _

theorem appendBytes_halted (laws : http.Stopping) {parser after : Parser σ} {buffer : Bytes}
    {nparsed : Nat} (parsed : parser.appendBytes http buffer = .ok (after, nparsed))
    (left : nparsed < buffer.length) : http.errno after.machine ≠ .ok := by
  intro going
  exact Nat.lt_irrefl _ (Parser.appendBytes_whole laws parsed going ▸ left)

theorem drained_finishes (pending : reader.Pending) (drained : reader.streambuffer = []) :
    reader.Finishes http owner :=
  ⟨0, .returned reader, fun fuel _ => pParseSome_drained drained fuel, pending.resting drained⟩

theorem thrown_finishes (laws : http.Stopping) (coherent : reader.parser.Coherent http)
    (pending : reader.Pending) (some : reader.streambuffer ≠ []) {fault : Fault}
    (refused : { reader.parser with started := true }.appendBytes http reader.streambuffer =
      .error fault) : reader.Finishes http owner := by
  refine ⟨1, .thrown fault reader.log, fun fuel enough => ?_, pending.distinct⟩
  obtain ⟨rest, rfl⟩ := Nat.exists_eq_add_of_le' enough
  rw [pParseSome_succ laws coherent some, refused]

theorem whole_finishes (laws : http.Stopping) (coherent : reader.parser.Coherent http)
    (pending : reader.Pending) (some : reader.streambuffer ≠ []) {after : Parser σ}
    (parsed : { reader.parser with started := true }.appendBytes http reader.streambuffer =
      .ok (after, reader.streambuffer.length)) : reader.Finishes http owner := by
  have started : Parser.Coherent http { reader.parser with started := true } := coherent
  let next := reader.taken after reader.streambuffer.length
  have used : next.streambuffer = [] := by simp [next, taken]
  have finished : Finished http (respond http owner .returned next) :=
    respond_finished laws (pending.taken after _)
      (Parser.appendBytes_coherent laws started parsed) used
  refine ⟨1, respond http owner .returned next, fun fuel enough => ?_, finished⟩
  obtain ⟨rest, rfl⟩ := Nat.exists_eq_add_of_le' enough
  rw [pParseSome_parsed laws coherent some parsed,
    respond_drained used (pParseSome http owner rest) .returned, andThen_finished finished]

theorem reread_finishes (laws : http.Stopping) (coherent : reader.parser.Coherent http)
    {after : Parser σ} {nparsed : Nat}
    (parsed : { reader.parser with started := true }.appendBytes http reader.streambuffer =
      .ok (after, nparsed)) (left : nparsed < reader.streambuffer.length)
    (again : owner reader.log.length = .readAgain)
    (rest : ∀ err, (((reader.taken after nparsed).answered err).restarted http).Finishes http
      owner) : reader.Finishes http owner := by
  have some : reader.streambuffer ≠ [] := by
    intro none
    simp [none] at left
  have remaining : (reader.taken after nparsed).streambuffer ≠ [] := by
    simpa [taken, List.drop_eq_nil_iff] using left
  obtain ⟨err, called⟩ := @respond_stopped _ http owner (reader.taken after nparsed)
    (appendBytes_halted laws parsed left)
  obtain ⟨bound, outcome, ends, finished⟩ := rest err
  refine ⟨bound + 1, outcome, fun fuel enough => ?_, finished⟩
  obtain ⟨more, rfl⟩ := Nat.exists_eq_add_of_le' (Nat.le_of_add_left_le enough)
  have resume : owner (reader.taken after nparsed).log.length = .readAgain := again
  rw [pParseSome_parsed laws coherent some parsed, called, readCb_again resume, if_neg remaining,
    ends more (by omega), andThen_finished finished]

theorem pParseSome_finishes (laws : http.Stopping) {answered : Nat} {parser : Parser σ}
    {buffer : Bytes} (drains : Drains http owner answered parser buffer)
    (coherent : parser.Coherent http) {reader : FullMessageReader σ} (pending : reader.Pending)
    (count : reader.log.length = answered) (current : reader.parser = parser)
    (stored : reader.streambuffer = buffer) : reader.Finishes http owner := by
  induction drains generalizing reader with
  | empty => exact drained_finishes pending stored
  | thrown refused =>
      subst current stored
      by_cases drained : reader.streambuffer = []
      · exact drained_finishes pending drained
      · exact thrown_finishes laws coherent pending drained refused
  | whole parsed =>
      subst current stored
      by_cases drained : reader.streambuffer = []
      · exact drained_finishes pending drained
      · exact whole_finishes laws coherent pending drained parsed
  | reread parsed left again rest ih =>
      subst current stored count
      refine reread_finishes laws coherent parsed left again fun err => ?_
      exact ih (Parser.begin_coherent laws _) ((pending.taken _ _).restarted err)
        (by simp [taken, restarted, FullMessageReader.answered]) rfl rfl

/-! ## The loop that does not end -/

def Violates : Outcome σ → Prop
  | .outOfFuel _ => True
  | .returned reader => ¬ (reader.log.map Completion.call).Nodup
  | .thrown _ log => ¬ (log.map Completion.call).Nodup

theorem Violates.of_log {outcome : Outcome σ} {log : List Completion}
    (repeated : ¬ (log.map Completion.call).Nodup) (kept : log <+: outcome.log) :
    Violates outcome := by
  have longer : ¬ (outcome.log.map Completion.call).Nodup := fun distinct =>
    repeated (distinct.sublist (kept.sublist.map _))
  cases outcome with
  | returned reader => exact longer
  | thrown fault log => exact longer
  | outOfFuel log => trivial

theorem readCb_log (grows : ∀ next, next.log <+: (parse next).log) (err : ErrorType) :
    (reader.answered err).log <+: (reader.readCb http owner parse err).log := by
  cases reply : owner reader.log.length with
  | leave =>
      rw [readCb_leave reply]
      exact List.prefix_rfl
  | readAgain =>
      rw [readCb_again reply]
      split
      · exact List.prefix_rfl
      · exact grows ((reader.answered err).restarted http)

theorem answered_log (reader : FullMessageReader σ) (err : ErrorType) :
    reader.log <+: (reader.answered err).log :=
  List.prefix_append _ _

theorem andThen_log (grows : ∀ next, next.log <+: (parse next).log) (outcome : Outcome σ) :
    outcome.log <+: (outcome.andThen parse).log := by
  cases outcome with
  | returned reader => exact grows reader
  | thrown | outOfFuel => exact List.prefix_rfl

theorem pParseSome_log (fuel : Nat) (reader : FullMessageReader σ) :
    reader.log <+: (pParseSome http owner fuel reader).log := by
  induction fuel generalizing reader with
  | zero =>
      rw [pParseSome.eq_def]
      split <;> exact List.prefix_rfl
  | succ fuel ih =>
      rw [pParseSome]
      split
      · exact List.prefix_rfl
      · match reader.parser.consumeStreambuf http (fuel + 1) reader.streambuffer false with
        | .error (.thrown fault) => exact List.prefix_rfl
        | .error .outOfFuel => exact List.prefix_rfl
        | .ok (parser, streambuffer, value) =>
            let next : FullMessageReader σ := { reader with parser, streambuffer }
            have called (err : ErrorType) :
                next.log <+: (next.readCb http owner (pParseSome http owner fuel) err).log :=
              (answered_log next err).trans (readCb_log ih err)
            refine List.IsPrefix.trans ?_ (andThen_log ih _)
            cases value.returnCode with
            | error => exact called .parserError
            | endOfMessage => exact called .ok
            | endOfData | endOfHeader => exact List.prefix_rfl

theorem Violates.andThen {outcome : Outcome σ} (violates : Violates outcome) (fuel : Nat) :
    Violates (outcome.andThen (pParseSome http owner fuel)) := by
  cases outcome with
  | returned reader => exact Violates.of_log violates (pParseSome_log fuel reader)
  | thrown fault log => exact violates
  | outOfFuel log => trivial

/-- A stopped parser with bytes left reports its stop again. -/
theorem pParseSome_repeats (laws : http.Stopping) (coherent : reader.parser.Coherent http)
    (halted : http.errno reader.parser.machine ≠ .ok) (some : reader.streambuffer ≠ [])
    (done : reader.calls ∈ reader.log.map Completion.call) (fuel : Nat) :
    Violates (pParseSome http owner fuel reader) := by
  cases fuel with
  | zero =>
      rw [pParseSome.eq_def, if_neg some]
      trivial
  | succ fuel =>
      let parser : Parser σ := { reader.parser with started := true }
      have stopped : http.errno parser.machine ≠ .ok := halted
      have stuck : parser.appendBytes http reader.streambuffer = .ok (parser, 0) :=
        Parser.appendBytes_stopped laws stopped _
      let next := reader.taken parser 0
      obtain ⟨err, called⟩ := @respond_stopped _ http owner next halted
      rw [pParseSome_parsed laws coherent some stuck, called]
      refine Violates.andThen (Violates.of_log ?_ (readCb_log (pParseSome_log fuel) err)) fuel
      intro distinct
      simp only [answered, next, taken, List.map_append, List.map_cons, List.map_nil] at distinct
      exact List.disjoint_of_nodup_append distinct done (List.mem_singleton_self _)

/-- Bytes that are not used up keep the loop going, or make it answer a read
twice. -/
theorem pParseSome_violates (laws : http.Stopping) (fuel : Nat) {reader : FullMessageReader σ}
    (coherent : reader.parser.Coherent http)
    (stuck : ¬ Drains http owner reader.log.length reader.parser reader.streambuffer) :
    Violates (pParseSome http owner fuel reader) := by
  have some : reader.streambuffer ≠ [] := by
    intro none
    exact stuck (none ▸ .empty)
  induction fuel generalizing reader with
  | zero =>
      rw [pParseSome.eq_def, if_neg some]
      trivial
  | succ fuel ih =>
      cases parsed : { reader.parser with started := true }.appendBytes http reader.streambuffer with
      | error fault => exact absurd (.thrown parsed) stuck
      | ok result =>
          obtain ⟨after, nparsed⟩ := result
          have bound : nparsed ≤ reader.streambuffer.length := by
            rw [(Parser.appendBytes_ok parsed).2.2.2]
            exact laws.bounded _ _ some
          have left : nparsed < reader.streambuffer.length := by
            refine Nat.lt_of_le_of_ne bound ?_
            intro all
            subst all
            exact stuck (.whole parsed)
          let next := reader.taken after nparsed
          have remaining : next.streambuffer ≠ [] := by
            simpa [next, taken, List.drop_eq_nil_iff] using left
          have halted := appendBytes_halted laws parsed left
          have started : Parser.Coherent http { reader.parser with started := true } := coherent
          obtain ⟨err, called⟩ := @respond_stopped _ http owner next halted
          rw [pParseSome_parsed laws coherent some parsed, called]
          cases reply : owner next.log.length with
          | readAgain =>
              rw [readCb_again reply, if_neg remaining]
              have ready : ((next.answered err).restarted http).parser.Coherent http :=
                Parser.begin_coherent laws _
              refine Violates.andThen (ih ready ?_ remaining) fuel
              intro drains
              refine stuck (.reread parsed left reply ?_)
              simpa [next, taken, restarted, answered] using drains
          | leave =>
              rw [readCb_leave reply]
              have ready : (next.answered err).parser.Coherent http :=
                Parser.appendBytes_coherent laws started parsed
              exact pParseSome_repeats laws ready halted remaining (by simp [answered]) fuel

/-! ## Runs -/

theorem new_resting (size : Nat) : (new http size).Resting http where
  drained := rfl
  distinct := List.nodup_nil
  numbered := nofun
  single := Nat.zero_le 1
  reading busy := absurd rfl busy

theorem Resting.pending (resting : reader.Resting http) (busy : reader.outstanding ≠ []) :
    { reader with outstanding := reader.outstanding.tail }.Pending where
  distinct := resting.distinct
  unanswered := (resting.reading busy).1
  idle := by
    apply List.eq_nil_of_length_eq_zero
    have single := resting.single
    simp only [List.length_tail]
    omega

theorem step_start (drained : reader.streambuffer = []) (fuel : Nat) :
    step http owner fuel reader .start = .returned (reader.restarted http).pReadSome := by
  rw [step, asyncReadMessage_eq, if_pos drained]

theorem restarted_finished (laws : http.Stopping) (resting : reader.Resting http)
    (idle : reader.outstanding = []) :
    Finished http (.returned (reader.restarted http).pReadSome) :=
  pReadSome_resting
    ⟨resting.distinct, fun completion member => Nat.lt_succ_of_le (resting.numbered completion member),
      idle⟩
    resting.drained (Parser.begin_coherent laws _)

theorem pOnEof_finished (laws : http.Stopping) (pending : reader.Pending)
    (drained : reader.streambuffer = []) :
    Finished http (reader.pOnEof http owner parse) := by
  unfold pOnEof
  cases reader.parser.endOfInput http with
  | error fault => exact pending.distinct
  | ok result =>
      obtain ⟨parser, code⟩ := result
      have called (err : ErrorType) :
          Finished http ({ reader with parser }.readCb http owner parse err) :=
        readCb_finished laws (pending.parsed parser reader.streambuffer) drained err
      cases code with
      | error | endOfData => exact called .parserError
      | endOfHeader | endOfMessage => exact called .ok

theorem pOnEof_drained (drained : reader.streambuffer = [])
    (parse other : FullMessageReader σ → Outcome σ) :
    reader.pOnEof http owner parse = reader.pOnEof http owner other := by
  unfold pOnEof
  cases reader.parser.endOfInput http with
  | error fault => rfl
  | ok result =>
      obtain ⟨parser, code⟩ := result
      let next : FullMessageReader σ := { reader with parser }
      have same (err : ErrorType) :
          next.readCb http owner parse err = next.readCb http owner other err :=
        @readCb_drained _ http owner next drained err parse other
      cases code with
      | error | endOfData => exact same .parserError
      | endOfHeader | endOfMessage => exact same .ok

/-- From a state between inputs, a clean input is dealt with in finitely many
iterations and leads to such a state again. -/
theorem step_finishes (laws : http.Stopping) (resting : reader.Resting http) {input : Input}
    (enabled : reader.Enabled input) (clean : Clean http owner reader input) :
    ∃ bound outcome, (∀ fuel, bound ≤ fuel → step http owner fuel reader input = outcome) ∧
      Finished http outcome := by
  cases input with
  | start =>
      exact ⟨0, _, fun fuel _ => step_start resting.drained fuel,
        restarted_finished laws resting enabled⟩
  | data bytes =>
      exact pParseSome_finishes laws clean (resting.reading enabled).2
        ((resting.pending enabled).parsed reader.parser (reader.streambuffer ++ bytes)) rfl rfl rfl
  | readError err bytesTransfered =>
      have pending := resting.pending enabled.1
      let next : FullMessageReader σ := { reader with outstanding := reader.outstanding.tail }
      have drained : next.streambuffer = [] := resting.drained
      refine ⟨0, step http owner 0 reader (.readError err bytesTransfered), fun fuel _ => ?_, ?_⟩
      · have same := @pOnEof_drained _ http owner next drained
          (pParseSome http owner fuel) (pParseSome http owner 0)
        have called := @readCb_drained _ http owner next drained err
          (pParseSome http owner fuel) (pParseSome http owner 0)
        simp only [step, pOnReadError]
        split
        · split
          · exact same
          · exact called
        · exact called
      · simp only [step, pOnReadError]
        split
        · split
          · exact pOnEof_finished laws pending drained
          · exact readCb_finished laws pending drained err
        · exact readCb_finished laws pending drained err

theorem reached_resting (laws : http.Stopping)
    (reached : (runs http owner).Reaches (Clean http owner) reader) : reader.Resting http := by
  refine reached.invariant ?_ ?_
  · intro start initial
    obtain ⟨size, rfl⟩ := initial
    exact new_resting size
  · intro state input next resting clean taken
    obtain ⟨enabled, bound, returned⟩ := taken
    obtain ⟨limit, outcome, ends, finished⟩ := step_finishes laws resting enabled clean
    have result := returned (max bound limit) (Nat.le_max_left _ _)
    rw [ends _ (Nat.le_max_right _ _)] at result
    subst result
    exact finished

theorem Finished.settled {outcome : Outcome σ} (finished : Finished http outcome) :
    (∀ log, outcome ≠ .outOfFuel log) ∧ (outcome.log.map Completion.call).Nodup := by
  cases outcome with
  | returned reader => exact ⟨nofun, finished.distinct⟩
  | thrown fault log => exact ⟨nofun, finished⟩
  | outOfFuel log => exact finished.elim

theorem Violates.unsettled {outcome : Outcome σ} (violates : Violates outcome)
    (ended : ∀ log, outcome ≠ .outOfFuel log) : ¬ (outcome.log.map Completion.call).Nodup := by
  cases outcome with
  | returned reader => exact violates
  | thrown fault log => exact violates
  | outOfFuel log => exact absurd rfl (ended log)

theorem Settles.clean (laws : http.Stopping) (resting : reader.Resting http) {input : Input}
    (enabled : reader.Enabled input) (settles : reader.Settles http owner input) :
    reader.Clean http owner input := by
  cases input with
  | start | readError => trivial
  | data bytes =>
      by_contra stuck
      obtain ⟨bound, outcome, ends, ended, distinct⟩ := settles
      let next : FullMessageReader σ := { reader with
        outstanding := reader.outstanding.tail
        streambuffer := reader.streambuffer ++ bytes }
      have coherent : next.parser.Coherent http := (resting.reading enabled).2
      have violates := @pParseSome_violates _ http owner laws bound next coherent stuck
      have same : pParseSome http owner bound next = outcome := ends bound (Nat.le_refl _)
      rw [same] at violates
      exact violates.unsettled ended distinct

/-- In a run whose inputs are all clean no read is answered twice, and the next
input is dealt with in finitely many iterations, again without answering a read
twice, exactly when it is clean. -/
theorem reader_settles_iff_clean (laws : http.Stopping)
    (reached : (runs http owner).Reaches (Clean http owner) reader) :
    (reader.log.map Completion.call).Nodup ∧
      ∀ input, reader.Enabled input →
        (reader.Settles http owner input ↔ reader.Clean http owner input) := by
  have resting := reached_resting laws reached
  refine ⟨resting.distinct, fun input enabled => ⟨fun settles => ?_, fun clean => ?_⟩⟩
  · exact settles.clean laws resting enabled
  · obtain ⟨bound, outcome, ends, finished⟩ := step_finishes laws resting enabled clean
    exact ⟨bound, outcome, ends, finished.settled⟩

def waiting (http : HttpParser σ) : FullMessageReader σ :=
  ((new http 0).restarted http).pReadSome

theorem waiting_reached {guard : FullMessageReader σ → Input → Prop}
    (allowed : guard (new http 0) .start) : (runs http owner).Reaches guard (waiting http) := by
  have empty : (new http 0).streambuffer = [] := rfl
  refine .step (.initial ⟨0, rfl⟩) allowed ⟨rfl, 0, fun fuel _ => ?_⟩
  exact step_start empty fuel

def getRequest : Bytes := ascii "GET / HTTP/1.1\r\n\r\n"

theorem waiting_settles_getRequest :
    ((waiting (scripted [.get])).log.map Completion.call).Nodup ∧
      (waiting (scripted [.get])).Settles (scripted [.get]) (fun _ => .leave) (.data getRequest) := by
  have laws := scripted_stopping [.get]
  obtain ⟨distinct, settled⟩ := reader_settles_iff_clean laws
    (@waiting_reached _ (scripted [.get]) (fun _ => .leave) _ trivial)
  refine ⟨distinct, (settled (.data getRequest) (by decide)).mpr ?_⟩
  exact .whole rfl

/-- One more byte after a message, and an owner that does not read at once:
the loop keeps reporting the message. -/
theorem byte_after_message_never_settles :
    (runs (scripted [.get]) (fun _ => .leave)).Reaches Transition.unguarded
        (waiting (scripted [.get])) ∧
      (waiting (scripted [.get])).Enabled (.data (getRequest ++ ascii "X")) ∧
      ¬ (waiting (scripted [.get])).Settles (scripted [.get]) (fun _ => .leave)
        (.data (getRequest ++ ascii "X")) := by
  have laws := scripted_stopping [.get]
  have enabled : (waiting (scripted [.get])).Enabled (.data (getRequest ++ ascii "X")) := by decide
  have resting : (waiting (scripted [.get])).Resting (scripted [.get]) :=
    reached_resting laws (@waiting_reached _ _ (fun _ => .leave) _ trivial)
  refine ⟨waiting_reached trivial, enabled, fun settles => ?_⟩
  have stops : ∃ after, { (waiting (scripted [.get])).parser with started := true }.appendBytes
      (scripted [.get]) (getRequest ++ ascii "X") = .ok (after, 18) := ⟨_, rfl⟩
  obtain ⟨after, stops⟩ := stops
  have drains := settles.clean laws resting enabled
  cases drains with
  | thrown refused => exact absurd (stops.symm.trans refused) (by simp)
  | whole parsed => exact absurd (stops.symm.trans parsed) (by simp [getRequest, ascii])
  | reread _ _ again _ => cases again

end FullMessageReader

end Marvin.Message
