import Marvin.Message.BackToBack
import Marvin.Message.EndOfInput
import Marvin.Server.Refinement
import Marvin.SimpleProxy.CtlServer

namespace Marvin.SimpleProxy

open Marvin.Data Marvin.Http Marvin.Message Marvin.Server

/-! # Dialogues

The control server down to the bytes it reads.  Every connection has the reader of its
`CtlApp`, and a client that sends one request after another, each once the answer to
the one before is written.
-/

structure Dialogue (σ : Type) where
  reader : FullMessageReader σ
  session : CtlSession
  /-- What was read of the last request, and what is still to be read of it. -/
  given : Bytes
  unread : Bytes
  /-- The requests that the client has begun to send. -/
  asked : List Bytes
  /-- `p_parse_some` does not return. -/
  stuck : Bool
deriving DecidableEq, Repr

inductive WireCompletion where
  /-- The client begins to send a request. -/
  | sends (text : Bytes)
  | data (bytes : Bytes)
  | readError (err : ErrorType) (bytesTransfered : Nat)
  | write (stops : Bool) (err : ErrorType) (shutdown : Shutdown)

/-- `CtlApp` starts no read from inside the callback of one. -/
def stays : Owner := fun _ => .leave

/-- What the callback of `p_internal_handle` is told. -/
def readResult (completion : Message.Completion) : CtlCompletion :=
  .read (if completion.err = .ok then .ok completion.message else .error completion.err)

namespace Dialogue

variable {σ : Type} (http : HttpParser σ) (methodStr : HttpMethod → Bytes)

/-- The reader comes back, after it has called the session. -/
def resume (control : Control) (dialogue : Dialogue σ) :
    Outcome σ → Except Fault (Control × Dialogue σ)
  | .returned reader => do
      let (control, session) ← (reader.log.drop dialogue.reader.log.length).foldlM
        (fun (control, session) completion =>
          session.callback methodStr control (readResult completion)) (control, dialogue.session)
      return (control, { dialogue with reader, session })
  | .thrown fault _ => throw fault
  | .outOfFuel _ => return (control, { dialogue with stuck := true })

/-- `p_internal_handle` was called. -/
def startsRead (before after : CtlSession) : Bool :=
  before.outstanding.count .read < after.outstanding.count .read

def callback (fuel : Nat) (control : Control) (dialogue : Dialogue σ) :
    WireCompletion → Except Fault (Control × Dialogue σ)
  | .sends text =>
      return (control, { dialogue with given := [], unread := text, asked := dialogue.asked ++ [text] })
  | .data bytes =>
      resume methodStr control
        { dialogue with
          given := dialogue.given ++ bytes
          unread := dialogue.unread.drop bytes.length }
        (dialogue.reader.step http stays fuel (.data bytes))
  | .readError err bytesTransfered =>
      dialogue.resume methodStr control
        (dialogue.reader.step http stays fuel (.readError err bytesTransfered))
  | .write stops err shutdown => do
      let (control, session) ←
        dialogue.session.callback methodStr control (.write stops err shutdown)
      if startsRead dialogue.session session then
        resume methodStr control { dialogue with session }
          (dialogue.reader.step http stays fuel .start)
      else return (control, { dialogue with session })

def Enabled (dialogue : Dialogue σ) : WireCompletion → Prop
  | .sends text => .read ∈ dialogue.session.outstanding ∧ dialogue.unread = [] ∧ text ≠ []
  | .data bytes => dialogue.reader.Enabled (.data bytes) ∧ bytes ≠ [] ∧ bytes <+: dialogue.unread
  | .readError err bytesTransfered => dialogue.reader.Enabled (.readError err bytesTransfered)
  | .write stops _ _ => .write stops ∈ dialogue.session.outstanding

/-- The requests that the reader has delivered. -/
def heard (dialogue : Dialogue σ) : List Bytes :=
  if dialogue.unread = [] then dialogue.asked else dialogue.asked.dropLast

end Dialogue

/-- Uninitialised as it is, `m_current_body_buffer_size` may have any value. -/
def dialogueApp {σ : Type} (http : HttpParser σ) (methodStr : HttpMethod → Bytes) (size fuel : Nat) :
    RequestHandler Control (Dialogue σ) WireCompletion where
  handle := ⟨((FullMessageReader.new http size).restarted http).pReadSome, .handle, [], [], [], false⟩
  Enabled := Dialogue.Enabled
  callback := Dialogue.callback http methodStr fuel
  done dialogue := dialogue.session.doneCallbacks
  outside _ _ := False

/-- A client sends complete messages that say where they end. -/
def Sound {σ : Type} (http : HttpParser σ) (untilEof : σ → Prop) : WireCompletion → Prop
  | .sends text =>
      (∃ message, FullMessageReader.Alone http text message) ∧ Delimited http untilEof text
  | _ => True

/-! ## The reader -/

section Reader

open FullMessageReader

variable {σ : Type} {http : HttpParser σ} {untilEof : σ → Prop} {reader next : FullMessageReader σ}

/-- The last piece of a request. -/
theorem step_data_complete (stopping : http.Stopping) (splitting : http.Splitting)
    (watching : reader.Watching http) {bytes : Bytes} {message : MessageBase}
    (awaits : Awaits http reader.parser bytes message) :
    ∃ final request, (∀ fuel, step http stays (fuel + 1) reader (.data bytes) = .returned final) ∧
      final.log = reader.log ++ [⟨reader.calls, .ok, request⟩] ∧ request.Same message ∧
      final.outstanding = [] ∧ final.streambuffer = [] := by
  obtain ⟨after, appended, paused, same⟩ := awaits.complete splitting []
  let filled : FullMessageReader σ := { reader with
    outstanding := reader.outstanding.tail, streambuffer := reader.streambuffer ++ bytes }
  have stored : filled.streambuffer = bytes := by simp [filled, watching.drained]
  have some : filled.streambuffer ≠ [] := stored ▸ awaits.some
  have parsed : { filled.parser with started := true }.appendBytes http filled.streambuffer =
      .ok (after, bytes.length) := by
    rw [stored]
    rw [List.append_nil] at appended
    exact appended
  let taken := filled.taken after bytes.length
  have drained : taken.streambuffer = [] := by
    simp [taken, FullMessageReader.taken, stored]
  refine ⟨taken.answered .ok, after.context.message, fun fuel => ?_, rfl, same, watching.tail,
    drained⟩
  have called : FullMessageReader.respond http stays (pParseSome http stays fuel) taken =
      .returned (taken.answered .ok) := by
    have stop : http.errno taken.parser.machine = .paused := paused
    rw [FullMessageReader.respond, stop]
    exact readCb_leave rfl .ok
  change pParseSome http stays (fuel + 1) filled = _
  rw [@pParseSome_parsed _ _ _ filled stopping awaits.coherent some _ _ parsed, called]
  exact @pParseSome_drained _ _ _ (taken.answered .ok) drained fuel

/-- Any other piece. -/
theorem step_data_part (stopping : http.Stopping) (splitting : http.Splitting)
    (watching : reader.Watching http) (busy : reader.outstanding ≠ []) {first second : Bytes}
    {message : MessageBase} (awaits : Awaits http reader.parser (first ++ second) message)
    (some : first ≠ []) (more : second ≠ []) :
    ∃ final, (∀ fuel, step http stays (fuel + 1) reader (.data first) = .returned final) ∧
      final.Watching http ∧ final.outstanding ≠ [] ∧ final.log = reader.log ∧
      Awaits http final.parser second message ∧
      final.parser.machine = (http.execute reader.parser.machine first).state := by
  obtain ⟨after, appended, remaining⟩ := awaits.part stopping splitting some more
  obtain ⟨_, machine, _⟩ := Parser.appendBytes_ok appended
  obtain ⟨final, stepped, watched, reading, log, rfl⟩ :=
    @data_parsed _ _ stays _ stopping watching busy first some _ appended remaining.going
  exact ⟨final, fun fuel => stepped _ (Nat.succ_pos fuel), watched, reading, log, remaining, machine⟩

theorem step_readError_idle {fuel bytesTransfered : Nat} {err : ErrorType}
    (watching : reader.Watching http)
    (stepped : step http stays fuel reader (.readError err bytesTransfered) = .returned next) :
    next.outstanding = [] := by
  have left (other : FullMessageReader σ) (result : ErrorType)
      (idle : other.outstanding = reader.outstanding.tail)
      (called : other.readCb http stays (pParseSome http stays fuel) result = .returned next) :
      next.outstanding = [] := by
    rw [readCb_leave rfl] at called
    cases called
    exact idle.trans watching.tail
  simp only [step] at stepped
  split at stepped
  · split at stepped
    · simp only [pOnEof] at stepped
      split at stepped
      · cases stepped
      · split at stepped
        · exact left _ _ rfl stepped
        · exact left _ _ rfl stepped
        · exact left _ _ rfl stepped
        · exact left _ _ rfl stepped
    · exact left _ _ rfl stepped
  · exact left _ _ rfl stepped

theorem step_start_reading (fuel : Nat) (drained : reader.streambuffer = []) :
    step http stays fuel reader .start = .returned (reader.restarted http).pReadSome := by
  rw [step, asyncReadMessage_eq, if_pos drained]

/-- http_parser once it has read the bytes. -/
def machineAfter (http : HttpParser σ) (given : Bytes) : σ :=
  if given = [] then http.init else (http.execute http.init given).state

theorem execute_machineAfter (splitting : http.Splitting) {given bytes : Bytes}
    (going : http.errno (machineAfter http given) = .ok) (some : bytes ≠ []) :
    (http.execute (machineAfter http given) bytes).state = machineAfter http (given ++ bytes) := by
  have longer : given ++ bytes ≠ [] := List.append_ne_nil_of_right_ne_nil _ some
  rw [machineAfter] at going
  rw [machineAfter, machineAfter, if_neg longer]
  split
  · next first => rw [first, List.nil_append]
  · next first =>
      rw [if_neg first] at going
      exact (splitting.resumed http.init given bytes first some going).1.symm

theorem machineAfter_delimited (ending : http.Ending untilEof) {given unread : Bytes}
    (delimited : Delimited http untilEof (given ++ unread)) (more : unread ≠ []) :
    ¬ untilEof (machineAfter http given) := by
  rw [machineAfter]
  split
  · exact fun inside => ending.opened .init inside rfl
  · next some => exact delimited.counted given unread rfl some more

end Reader

namespace Dialogue

variable {σ : Type} {http : HttpParser σ} {untilEof : σ → Prop} {methodStr : HttpMethod → Bytes}
  {control next : Control} {dialogue before after : Dialogue σ}

/-! ## One connection -/

/-- A connection waits for a request, is inside one, or does not read. -/
inductive Stage (http : HttpParser σ) (untilEof : σ → Prop) (dialogue : Dialogue σ) : Prop where
  | waiting (reading : dialogue.session.outstanding = [.read])
      (busy : dialogue.reader.outstanding ≠ []) (fresh : dialogue.reader.parser = .begin http .new)
      (read : dialogue.unread = [])
  | receiving (message : MessageBase) (reading : dialogue.session.outstanding = [.read])
      (busy : dialogue.reader.outstanding ≠ []) (more : dialogue.unread ≠ [])
      (last : dialogue.asked.getLast? = some (dialogue.given ++ dialogue.unread))
      (alone : FullMessageReader.Alone http (dialogue.given ++ dialogue.unread) message)
      (delimited : Delimited http untilEof (dialogue.given ++ dialogue.unread))
      (awaits : FullMessageReader.Awaits http dialogue.reader.parser dialogue.unread message)
      (machine : dialogue.reader.parser.machine = machineAfter http dialogue.given)
  | resting (silent : .read ∉ dialogue.session.outstanding) (idle : dialogue.reader.outstanding = [])
      (read : dialogue.session.outstanding ≠ [] → dialogue.unread = [])

structure Good (http : HttpParser σ) (untilEof : σ → Prop) (dialogue : Dialogue σ) : Prop where
  course : dialogue.session.Course
  watching : dialogue.reader.Watching http
  unstuck : dialogue.stuck = false
  stage : Stage http untilEof dialogue

/-- What a callback is for the control server: nothing, or a callback of its own.  A
request that it dispatches is the next one that the client sent. -/
inductive Turn (http : HttpParser σ) (methodStr : HttpMethod → Bytes) (control next : Control)
    (before after : Dialogue σ) : Prop where
  | unseen (same : next = control) (session : after.session = before.session)
      (heard : after.heard = before.heard)
  | answers (completion : CtlCompletion)
      (enabled : completion.operation ∈ before.session.outstanding)
      (called : before.session.callback methodStr control completion = .ok (next, after.session))
      (quiet : ∀ request, completion ≠ .read (.ok request)) (heard : after.heard = before.heard)
  | hears (request message : MessageBase) (text : Bytes)
      (enabled : .read ∈ before.session.outstanding)
      (called : before.session.callback methodStr control (.read (.ok request)) =
        .ok (next, after.session))
      (alone : FullMessageReader.Alone http text message) (same : request.Same message)
      (heard : after.heard = before.heard ++ [text])

theorem resume_silent {reader : FullMessageReader σ} (log : reader.log = dialogue.reader.log) :
    dialogue.resume methodStr control (.returned reader) =
      .ok (control, { dialogue with reader }) := by
  rw [resume, log, List.drop_length]
  rfl

theorem resume_called {reader : FullMessageReader σ} {completion : Message.Completion}
    (log : reader.log = dialogue.reader.log ++ [completion])
    (resumed : dialogue.resume methodStr control (.returned reader) = .ok (next, after)) :
    ∃ session, dialogue.session.callback methodStr control (readResult completion) =
        .ok (next, session) ∧ after = { dialogue with reader, session } := by
  rw [resume, log, List.drop_left, List.foldlM_cons] at resumed
  obtain ⟨result, called, rest⟩ := exists_ok_of_bind resumed
  obtain ⟨middle, first, last⟩ := exists_ok_of_bind called
  obtain rfl := Except.ok.inj last
  obtain ⟨control', session⟩ := middle
  obtain ⟨rfl, rfl⟩ := Prod.mk.inj (Except.ok.inj rest)
  exact ⟨session, first, rfl⟩

theorem resume_returns {reader : FullMessageReader σ} {completion : Message.Completion}
    (log : reader.log = dialogue.reader.log ++ [completion])
    (returns : ∃ result, dialogue.session.callback methodStr control (readResult completion) =
      .ok result) : ∃ result, dialogue.resume methodStr control (.returned reader) = .ok result := by
  obtain ⟨⟨answer, session⟩, called⟩ := returns
  refine ⟨(answer, { dialogue with reader, session }), ?_⟩
  rw [resume, log, List.drop_left, List.foldlM_cons]
  simp only [called, bind, Except.bind]
  rfl

theorem Good.machine (ending : http.Ending untilEof) (good : Good http untilEof dialogue)
    (busy : dialogue.reader.outstanding ≠ []) :
    dialogue.session.outstanding = [.read] ∧ ¬ untilEof dialogue.reader.parser.machine := by
  cases good.stage with
  | waiting reading _ fresh read =>
      refine ⟨reading, ?_⟩
      rw [fresh]
      exact fun inside => ending.opened .init inside rfl
  | receiving message reading _ more last alone delimited awaits machine =>
      refine ⟨reading, ?_⟩
      rw [machine]
      exact machineAfter_delimited ending delimited more
  | resting silent idle read => exact absurd idle busy

theorem sends_turn (stopping : http.Stopping) (good : Good http untilEof before) {text : Bytes}
    (enabled : before.Enabled (.sends text)) (sound : Sound http untilEof (.sends text)) {fuel : Nat}
    (called : before.callback http methodStr fuel control (.sends text) = .ok (next, after)) :
    Good http untilEof after ∧ Turn http methodStr control next before after := by
  obtain ⟨rfl, rfl⟩ := Prod.mk.inj (Except.ok.inj called)
  obtain ⟨listening, read, some⟩ := enabled
  obtain ⟨⟨message, alone⟩, delimited⟩ := sound
  have heard : heard { before with given := [], unread := text, asked := before.asked ++ [text] } =
      before.heard := by
    rw [heard, heard, if_neg some, if_pos read, List.dropLast_concat]
  refine ⟨⟨good.course, good.watching, good.unstuck, ?_⟩, .unseen rfl rfl heard⟩
  cases good.stage with
  | waiting reading busy fresh _ =>
      refine .receiving message reading busy some (by simp) alone delimited ?_ ?_
      · rw [fresh]
        exact alone.awaits stopping
      · rw [fresh]
        rfl
  | receiving _ _ _ more => exact absurd read more
  | resting silent => exact absurd listening silent

theorem data_turn (stopping : http.Stopping) (splitting : http.Splitting)
    (good : Good http untilEof before) {bytes : Bytes} (enabled : before.Enabled (.data bytes))
    {fuel : Nat}
    (called : before.callback http methodStr (fuel + 1) control (.data bytes) = .ok (next, after)) :
    Good http untilEof after ∧ Turn http methodStr control next before after := by
  obtain ⟨busy, some, rest, split⟩ := enabled
  cases good.stage with
  | waiting reading _ fresh read =>
      rw [read, List.append_eq_nil_iff] at split
      exact absurd split.1 some
  | resting silent idle => exact absurd idle busy
  | receiving message reading _ more last alone delimited awaits machine =>
      have left : before.unread.drop bytes.length = rest := by rw [← split, List.drop_left]
      have whole : before.given ++ before.unread = before.given ++ bytes ++ rest := by
        rw [← split, List.append_assoc]
      rw [whole] at last alone delimited
      rw [← split] at awaits
      have early : before.heard = before.asked.dropLast := by rw [heard, if_neg more]
      let taken : Dialogue σ := { before with given := before.given ++ bytes, unread := rest }
      have logged : before.reader.log = taken.reader.log := rfl
      by_cases final : rest = []
      · subst final
        rw [List.append_nil] at awaits last alone delimited
        obtain ⟨reader, request, stepped, log, same, idle, drained⟩ :=
          step_data_complete stopping splitting good.watching awaits
        rw [callback, stepped, left] at called
        obtain ⟨session, dispatched, rfl⟩ := resume_called (by rw [← logged]; exact log) called
        have asked : before.asked.dropLast ++ [before.given ++ bytes] = before.asked := by
          exact List.dropLast_append_getLast? _ last
        have enabled : CtlCompletion.operation (.read (.ok request)) ∈ before.session.outstanding := by
          rw [reading]
          exact List.mem_singleton_self _
        obtain ⟨response, wrtr, written, _, _, _, writes⟩ := CtlSession.dispatch_ok dispatched
        refine ⟨⟨CtlSession.callback_course good.course enabled dispatched,
          .of_idle idle drained, good.unstuck, .resting ?_ idle fun _ => rfl⟩,
          .hears request message (before.given ++ bytes) enabled dispatched alone same ?_⟩
        · change _ ∉ session.outstanding
          rw [writes]
          simp [reading, readResult, CtlCompletion.operation]
        · rw [early, asked]
          rfl
      · obtain ⟨reader, stepped, watched, reads, log, remaining, advanced⟩ :=
          step_data_part stopping splitting good.watching busy awaits some final
        rw [callback, stepped, left, resume_silent (log.trans logged)] at called
        obtain ⟨rfl, rfl⟩ := Prod.mk.inj (Except.ok.inj called)
        refine ⟨⟨good.course, watched, good.unstuck, .receiving message reading reads final last alone
          delimited remaining ?_⟩, .unseen rfl rfl ?_⟩
        · have going := awaits.going
          rw [machine] at advanced going
          exact advanced.trans (execute_machineAfter splitting going some)
        · rw [early]
          exact if_neg final

theorem readError_turn (stopping : http.Stopping) (ending : http.Ending untilEof)
    (good : Good http untilEof before) {err : ErrorType} {bytesTransfered : Nat}
    (enabled : before.Enabled (.readError err bytesTransfered)) {fuel : Nat}
    (called : before.callback http methodStr fuel control (.readError err bytesTransfered) =
      .ok (next, after)) :
    Good http untilEof after ∧ Turn http methodStr control next before after := by
  obtain ⟨reading, outside⟩ := good.machine ending enabled.1
  obtain ⟨reader, completion, stepped, watched, log, success⟩ :=
    @FullMessageReader.readError_answered _ _ stays _ _ stopping ending good.watching _ _ enabled
  have failed : completion.err ≠ .ok := fun ok => outside (success.mp ok).2
  have result : readResult completion = .read (.error completion.err) := by
    rw [readResult, if_neg failed]
  have idle := step_readError_idle good.watching (stepped fuel)
  rw [callback, stepped fuel] at called
  obtain ⟨session, ended, rfl⟩ := resume_called log called
  rw [result] at ended
  have listed : CtlCompletion.operation (.read (.error completion.err)) ∈
      before.session.outstanding := by
    rw [reading]
    exact List.mem_singleton_self _
  have emptied : session.outstanding = [] := by
    obtain ⟨_, rfl⟩ := Prod.mk.inj (Except.ok.inj ended)
    simp [CtlSession.doneCallback, CtlCompletion.operation, reading]
  refine ⟨⟨CtlSession.callback_course good.course listed ended, watched, good.unstuck,
    .resting ?_ idle fun some => absurd emptied some⟩,
    .answers _ listed ended (fun request same => by cases same) rfl⟩
  change _ ∉ session.outstanding
  rw [emptied]
  exact List.not_mem_nil

/-- While an answer is written the reader is at rest. -/
theorem Good.rests (good : Good http untilEof before) {stops : Bool}
    (listed : .write stops ∈ before.session.outstanding) :
    before.reader.outstanding = [] ∧ before.unread = [] ∧
      before.session.outstanding.count .read = 0 := by
  cases good.stage with
  | waiting reading =>
      rw [reading] at listed
      cases List.mem_singleton.mp listed
  | receiving _ reading =>
      rw [reading] at listed
      cases List.mem_singleton.mp listed
  | resting silent idle read =>
      exact ⟨idle, read (List.ne_nil_of_mem listed), List.count_eq_zero.mpr silent⟩

theorem write_turn (good : Good http untilEof before) {stops : Bool} {err : ErrorType}
    {shutdown : Shutdown} (enabled : before.Enabled (.write stops err shutdown)) {fuel : Nat}
    (called : before.callback http methodStr fuel control (.write stops err shutdown) =
      .ok (next, after)) :
    Good http untilEof after ∧ Turn http methodStr control next before after := by
  obtain ⟨⟨middle, session⟩, wrote, rest⟩ := exists_ok_of_bind called
  have listed : CtlCompletion.operation (.write stops err shutdown) ∈
      before.session.outstanding := enabled
  have course := CtlSession.callback_course good.course listed wrote
  obtain ⟨idle, read, none⟩ := good.rests listed
  have quits (ended : session.outstanding = []) : Good http untilEof after ∧
      Turn http methodStr control next before after := by
    have still : startsRead before.session session = false := by
      simp [startsRead, ended]
    simp only [still, Bool.false_eq_true, if_false] at rest
    obtain ⟨rfl, rfl⟩ := Prod.mk.inj (Except.ok.inj rest)
    refine ⟨⟨course, good.watching, good.unstuck, .resting ?_ idle fun some => absurd ended some⟩,
      .answers _ listed wrote (fun request same => by cases same) rfl⟩
    change _ ∉ session.outstanding
    rw [ended]
    exact List.not_mem_nil
  cases CtlSession.callback_turn good.course listed wrote with
  | fails same ended => exact quits (by rw [ended])
  | closes request asked writing ends stops shut => exact quits (by rw [shut])
  | dispatches request response wrtr written reading made sent logged writes =>
      rw [reading] at listed
      cases List.mem_singleton.mp listed
  | continues request asked writing keeps terminates reads =>
      have again : startsRead before.session session = true := by
        simp [startsRead, none, reads]
      simp only [again, if_true] at rest
      have logged : (before.reader.restarted http).pReadSome.log =
          ({ before with session } : Dialogue σ).reader.log := rfl
      rw [step_start_reading fuel good.watching.drained, resume_silent logged] at rest
      obtain ⟨rfl, rfl⟩ := Prod.mk.inj (Except.ok.inj rest)
      refine ⟨⟨course, FullMessageReader.restarted_watching idle good.watching.drained, good.unstuck,
        .waiting (by rw [reads]) ?_ rfl read⟩,
        .answers _ listed wrote (fun request same => by cases same) rfl⟩
      simp [FullMessageReader.pReadSome]

theorem callback_turn (stopping : http.Stopping) (splitting : http.Splitting)
    (ending : http.Ending untilEof) (good : Good http untilEof before) {completion : WireCompletion}
    (enabled : before.Enabled completion) (sound : Sound http untilEof completion) {fuel : Nat}
    (called : before.callback http methodStr (fuel + 1) control completion = .ok (next, after)) :
    Good http untilEof after ∧ Turn http methodStr control next before after := by
  cases completion with
  | sends text => exact sends_turn stopping good enabled sound called
  | data bytes => exact data_turn stopping splitting good enabled called
  | readError err bytesTransfered => exact readError_turn stopping ending good enabled called
  | write stops err shutdown => exact write_turn good enabled called

/-! ## What the client is told -/

/-- The requests of a connection in the log are those that its client has sent, as they
are read alone. -/
def Answered (http : HttpParser σ) (control : Control) (dialogue : Dialogue σ) : Prop :=
  List.Forall₂ (fun place text => ∃ request message, control.requests[place]? = some request ∧
    FullMessageReader.Alone http text message ∧ request.Same message)
    dialogue.session.places dialogue.heard

theorem Answered.grow (answered : Answered http control dialogue)
    (longer : control.log <+: next.log) : Answered http next dialogue := by
  refine List.Forall₂.imp (fun place text read => ?_) answered
  obtain ⟨request, message, found, alone, same⟩ := read
  obtain ⟨added, grown⟩ := longer
  have inside : place < (control.log.map Served.request).length :=
    (List.getElem?_eq_some_iff.mp found).1
  refine ⟨request, message, ?_, alone, same⟩
  rw [Control.requests, ← grown, List.map_append, List.getElem?_append_left inside]
  exact found

theorem callback_quiet {session later : CtlSession} {completion : CtlCompletion}
    (quiet : ∀ request, completion ≠ .read (.ok request))
    (called : session.callback methodStr control completion = .ok (next, later)) :
    next.log = control.log ∧ later.places = session.places := by
  cases completion with
  | read result =>
      cases result with
      | ok request => exact absurd rfl (quiet request)
      | error err =>
          obtain ⟨rfl, rfl⟩ := Prod.mk.inj (Except.ok.inj called)
          exact ⟨rfl, rfl⟩
  | write stops err shutdown =>
      simp only [CtlSession.callback, CtlSession.complete] at called
      split at called
      · obtain ⟨following, cycled, rest⟩ := exists_ok_of_bind called
        obtain ⟨rfl, rfl⟩ := Prod.mk.inj (Except.ok.inj rest)
        refine ⟨rfl, ?_⟩
        rw [CtlSession.pReqRespCycleComplete] at cycled
        split at cycled
        · obtain rfl := Except.ok.inj cycled
          rfl
        · obtain ⟨_, _, ended⟩ := exists_ok_of_bind cycled
          obtain rfl := Except.ok.inj ended
          rfl
      · obtain ⟨rfl, rfl⟩ := Prod.mk.inj (Except.ok.inj called)
        exact ⟨rfl, rfl⟩

theorem Turn.log (turn : Turn http methodStr control next before after) :
    control.log <+: next.log := by
  cases turn with
  | unseen same => rw [same]
  | answers completion enabled called quiet =>
      rw [(callback_quiet quiet called).1]
  | hears request message text enabled called =>
      obtain ⟨_, _, _, _, _, rfl, _⟩ := CtlSession.dispatch_ok called
      exact List.prefix_append _ _

theorem Turn.answered (turn : Turn http methodStr control next before after)
    (answered : Answered http control before) : Answered http next after := by
  have grown := answered.grow turn.log
  cases turn with
  | unseen same session heard =>
      rw [Answered, session, heard]
      exact grown
  | answers completion enabled called quiet heard =>
      rw [Answered, (callback_quiet quiet called).2, heard]
      exact grown
  | hears request message text enabled called alone same heard =>
      obtain ⟨_, _, written, _, _, logged, writes⟩ := CtlSession.dispatch_ok called
      have places : after.session.places = before.session.places ++ [control.log.length] := by
        rw [writes]
      have last : next.requests[control.log.length]? = some request := by
        rw [logged]
        simp [Control.requests]
      rw [Answered, places, heard]
      exact List.rel_append grown (.cons ⟨request, message, last, alone, same⟩ .nil)

theorem respond_same {request message : MessageBase} (same : request.Same message) (proxy : Proxy) :
    SimpleProxy.respond proxy request = SimpleProxy.respond proxy message := by
  have target := congrArg MessageBase.target same.1
  change request.target = message.target at target
  rw [SimpleProxy.respond, SimpleProxy.respond, target]

/-- The bytes complete a request whose answer cannot be stored. -/
def Overlong (http : HttpParser σ) (proxy : Proxy) (dialogue : Dialogue σ)
    (completion : WireCompletion) : Prop :=
  ∃ bytes message, completion = .data bytes ∧ bytes = dialogue.unread ∧
    FullMessageReader.Alone http (dialogue.given ++ bytes) message ∧
    largestBody < (respond proxy message).2.length

/-- An answer is written on a connection that is not kept and cannot be shut down. -/
def Unclosable (dialogue : Dialogue σ) (completion : WireCompletion) : Prop :=
  ∃ stops shutdown, completion = .write stops .ok shutdown ∧
    dialogue.session.request.any cycleKeepsAlive = false ∧
    (shutdown.closedAlready = true ∨ shutdown.err ≠ .ok)

theorem data_returns (stopping : http.Stopping) (splitting : http.Splitting)
    (good : Good http untilEof before) {bytes : Bytes} (enabled : before.Enabled (.data bytes))
    (methodStr : HttpMethod → Bytes) (fuel : Nat) (control : Control) :
    (∃ result, before.callback http methodStr (fuel + 1) control (.data bytes) = .ok result) ∨
      Overlong http control.proxy before (.data bytes) := by
  obtain ⟨busy, some, rest, split⟩ := enabled
  cases good.stage with
  | waiting reading _ fresh read =>
      rw [read, List.append_eq_nil_iff] at split
      exact absurd split.1 some
  | resting silent idle => exact absurd idle busy
  | receiving message reading _ more last alone delimited awaits machine =>
      rw [← split] at awaits
      by_cases final : rest = []
      · subst final
        rw [List.append_nil] at awaits split
        rw [← split] at alone
        obtain ⟨reader, request, stepped, log, same, _⟩ :=
          step_data_complete stopping splitting good.watching awaits
        by_cases short : (respond control.proxy request).2.length ≤ largestBody
        · have returns := (callback_ok_iff methodStr control before.session
            (.read (.ok request))).mpr short
          rw [callback, stepped]
          exact .inl (resume_returns log returns)
        · rw [respond_same same] at short
          exact .inr ⟨bytes, message, rfl, split, alone, Nat.lt_of_not_le short⟩
      · obtain ⟨reader, stepped, _, _, log, _⟩ :=
          step_data_part stopping splitting good.watching busy awaits some final
        rw [callback, stepped]
        exact .inl ⟨_, resume_silent log⟩

theorem write_returns (good : Good http untilEof before) (stops : Bool) (err : ErrorType)
    (shutdown : Shutdown) (methodStr : HttpMethod → Bytes) (fuel : Nat) (control : Control) :
    (∃ result, before.callback http methodStr fuel control (.write stops err shutdown) =
        .ok result) ∨ before.Unclosable (.write stops err shutdown) := by
  by_cases returns : before.session.Returns control (.write stops err shutdown)
  · obtain ⟨⟨answer, session⟩, called⟩ :=
      (callback_ok_iff methodStr control before.session _).mpr returns
    refine .inl ?_
    simp only [callback, called, bind, Except.bind]
    split
    · rw [step_start_reading _ good.watching.drained]
      exact ⟨_, resume_silent rfl⟩
    · exact ⟨_, rfl⟩
  · by_cases fine : err = .ok
    · subst fine
      obtain ⟨ends, stuck⟩ := not_or.mp returns
      refine .inr ⟨stops, shutdown, rfl, Bool.eq_false_iff.mpr ends, ?_⟩
      rcases not_and_or.mp stuck with closed | failed
      · exact .inl (Bool.not_eq_false _ ▸ closed)
      · exact .inr failed
    · cases err <;> first | exact absurd rfl fine | exact absurd trivial returns

/-- A callback returns unless it dispatches a request whose answer cannot be stored, or
cannot shut its connection down. -/
theorem callback_returns (stopping : http.Stopping) (splitting : http.Splitting)
    (ending : http.Ending untilEof) (good : Good http untilEof before) {completion : WireCompletion}
    (enabled : before.Enabled completion) (methodStr : HttpMethod → Bytes) (fuel : Nat)
    (control : Control) :
    (∃ result, before.callback http methodStr (fuel + 1) control completion = .ok result) ∨
      Overlong http control.proxy before completion ∨ before.Unclosable completion := by
  cases completion with
  | sends text => exact .inl ⟨_, rfl⟩
  | data bytes =>
      rcases data_returns stopping splitting good enabled methodStr fuel control with done | long
      · exact .inl done
      · exact .inr (.inl long)
  | readError err bytesTransfered =>
      obtain ⟨_, outside⟩ := good.machine ending enabled.1
      obtain ⟨reader, completion, stepped, _, log, success⟩ :=
        @FullMessageReader.readError_answered _ _ stays _ _ stopping ending good.watching _ _ enabled
      have failed : completion.err ≠ .ok := fun ok => outside (success.mp ok).2
      rw [callback, stepped]
      refine .inl (resume_returns log ?_)
      rw [readResult, if_neg failed]
      exact ⟨_, rfl⟩
  | write stops err shutdown =>
      rcases write_returns good stops err shutdown methodStr (fuel + 1) control with done | stuck
      · exact .inl done
      · exact .inr (.inr stuck)

end Dialogue

/-! ## All connections -/

section Run

variable {σ : Type} {http : HttpParser σ} {untilEof : σ → Prop}

theorem dialogueApp_good (http : HttpParser σ) (untilEof : σ → Prop) (methodStr : HttpMethod → Bytes)
    (size fuel : Nat) : Dialogue.Good http untilEof (dialogueApp http methodStr size fuel).handle where
  course := .reading rfl rfl rfl
  watching := FullMessageReader.restarted_watching rfl rfl
  unstuck := rfl
  stage := .waiting rfl (by simp [dialogueApp, FullMessageReader.pReadSome]) rfl rfl

theorem dialogueApp_refines (stopping : http.Stopping) (splitting : http.Splitting)
    (ending : http.Ending untilEof) (methodStr : HttpMethod → Bytes) (size fuel : Nat) :
    (dialogueApp http methodStr size (fuel + 1)).Refines (ctlApp methodStr)
      (fun _ => Sound http untilEof)
      (Dialogue.Good http untilEof) Dialogue.session where
  begins := ⟨dialogueApp_good http untilEof methodStr size (fuel + 1), rfl⟩
  done _ := rfl
  turns := by
    intro control next before after completion good enabled sound called
    obtain ⟨better, turn⟩ := Dialogue.callback_turn stopping splitting ending good enabled sound called
    refine ⟨better, ?_⟩
    cases turn with
    | unseen same session => exact .inl ⟨same, session⟩
    | answers completion listed answered => exact .inr ⟨completion, listed, answered⟩
    | hears request message text listed answered =>
        exact .inr ⟨.read (.ok request), listed, answered⟩
  outside other := other.elim

theorem dialogueApp_settles (stopping : http.Stopping) (splitting : http.Splitting)
    (ending : http.Ending untilEof) (methodStr : HttpMethod → Bytes) (size fuel : Nat) :
    (dialogueApp http methodStr size (fuel + 1)).Settles (fun _ => Sound http untilEof)
      (Dialogue.Good http untilEof) where
  begins := ⟨dialogueApp_good http untilEof methodStr size (fuel + 1), rfl⟩
  keeps := by
    intro control next before after completion good enabled sound called
    exact (Dialogue.callback_turn stopping splitting ending good enabled sound called).1
  once := by
    intro dialogue good
    cases good.course with
    | reading only pending opened => exact .inl pending
    | writing only pending opened asked kind => exact .inl pending
    | done idle posted shut =>
        refine .inr ⟨posted, fun completion enabled => ?_⟩
        cases good.stage with
        | waiting reading =>
            rw [idle] at reading
            cases reading
        | receiving _ reading =>
            rw [idle] at reading
            cases reading
        | resting silent reads =>
            cases completion with
            | sends text => exact silent enabled.1
            | data bytes => exact enabled.1 reads
            | readError err bytesTransfered => exact enabled.1 reads
            | write stops err shutdown =>
                have listed : CtlOperation.write stops ∈ dialogue.session.outstanding := enabled
                rw [idle] at listed
                cases listed

theorem dialogueApp_shares (stopping : http.Stopping) (splitting : http.Splitting)
    (ending : http.Ending untilEof) (methodStr : HttpMethod → Bytes) (size fuel : Nat) :
    (dialogueApp http methodStr size (fuel + 1)).Shares (fun _ => Sound http untilEof)
      (Dialogue.Good http untilEof) (fun _ => True) (Dialogue.Answered http) (fun _ _ => True) where
  begins _ := .nil
  alone := trivial
  symm _ := trivial
  own := by
    intro control next before after completion good _ answered enabled sound called
    exact ⟨trivial, (Dialogue.callback_turn stopping splitting ending good enabled sound
      called).2.answered answered⟩
  others := by
    intro control next before after other completion good _ _ answered _ enabled sound called
    exact ⟨answered.grow (Dialogue.callback_turn stopping splitting ending good enabled sound
      called).2.log, trivial⟩
  outside _ other := other.elim

/-- Whatever the connections and however the bytes of their requests are cut, a server
whose clients wait for each answer does what the control server does with whole
requests: the requests of a connection are dispatched in the order in which they were
sent, as they are read alone, each takes effect and is answered after those before it,
and a connection that fails or ends inside a request leaves it undone.  No reader keeps
bytes or fails to return, and a callback throws only when an answer is too long to be
stored or its connection cannot be shut down. -/
theorem dialogues_refine_control (stopping : http.Stopping) (splitting : http.Splitting)
    (ending : http.Ending untilEof) (methodStr : HttpMethod → Bytes) (size fuel : Nat)
    (initial : Proxy) {maxConnections : Nat} {serving : Serving Control (Dialogue σ)}
    (reached : (Serving.runs (dialogueApp http methodStr size (fuel + 1)) maxConnections
      ⟨initial, false, [], []⟩).Reaches (Serving.Guarded fun _ => Sound http untilEof) serving) :
    (∃ other, (Serving.runs (ctlApp methodStr) maxConnections ⟨initial, false, [], []⟩).Reaches
        Transition.unguarded other ∧
      Serving.Viewed (Dialogue.Good http untilEof) Dialogue.session serving other) ∧
    Serial initial serving.context ∧
    ∀ handler, ∀ dialogue ∈ KeyedList.lookup handler serving.handlers,
      dialogue.stuck = false ∧ dialogue.reader.streambuffer = [] ∧
      Dialogue.Answered http serving.context dialogue ∧
      ∀ completion, dialogue.Enabled completion →
        (∃ result, dialogue.callback http methodStr (fuel + 1) serving.context completion = .ok result) ∨
          dialogue.Overlong http serving.context.proxy completion ∨
          dialogue.Unclosable completion := by
  have settles := dialogueApp_settles stopping splitting ending methodStr size fuel
  obtain ⟨other, followed, viewed⟩ := Serving.reaches_refined
    (dialogueApp_refines stopping splitting ending methodStr size fuel) reached
  have controls : (ctlApp methodStr).Settles (fun _ _ => True) CtlSession.Course :=
    ctlApp_settles methodStr
  have serial := (Serving.reaches_shared controls (ctlApp_shares methodStr initial)
    (Serial.listen initial) (Serving.reaches_guarded followed)).fits
  rw [viewed.context] at serial
  have shared := Serving.reaches_shared settles
    (dialogueApp_shares stopping splitting ending methodStr size fuel) trivial reached
  refine ⟨⟨other, followed, viewed⟩, serial, fun handler dialogue found => ?_⟩
  have member := KeyedList.mem_of_lookup found
  have good := viewed.good _ member
  exact ⟨good.unstuck, good.watching.drained, shared.holds _ member, fun completion enabled =>
    Dialogue.callback_returns stopping splitting ending good enabled methodStr fuel serving.context⟩

end Run

/-- `GET /filter_list` on a connection that is to be kept. -/
def keptScript : Script :=
  .closing (ascii "G") .messageBegin ++ .silent (ascii "ET ") ++ .data .url (ascii "/filter_list") ++
    .silent (ascii " HTTP/1.1\r\n") ++ .data .headerField (ascii "Connection") ++
    .silent (ascii ": ") ++ .data .headerValue (ascii "Keep-Alive") ++
    .closing (ascii "\r\n\r\n") (.headersComplete (.other 1) 1 1)

def keptText : Bytes :=
  keptScript.map ScriptByte.byte

def keptParser : HttpParser ScriptState :=
  scriptedUntilEof keptScript (fun _ => false)

/-- One connection, with two requests in three pieces. -/
def keptInputs : List (Serving.Input Control WireCompletion) :=
  [.server (.run .startAccept 0), .server (.connects 0 7),
    .server (.run (.accepted 0 (.connected 7)) 1),
    .server (.run (.handleAccept 0 (.connected 7)) 1), .callback ⟨0, 7⟩ (.sends keptText),
    .callback ⟨0, 7⟩ (.data (keptText.take 10)), .callback ⟨0, 7⟩ (.data (keptText.drop 10)),
    .callback ⟨0, 7⟩ (.write false .ok ⟨false, .ok⟩), .callback ⟨0, 7⟩ (.sends keptText),
    .callback ⟨0, 7⟩ (.data keptText)]

instance {σ : Type} (dialogue : Dialogue σ) : DecidablePred dialogue.Enabled
  | .sends text => inferInstanceAs (Decidable (.read ∈ dialogue.session.outstanding ∧
      dialogue.unread = [] ∧ text ≠ []))
  | .data bytes => inferInstanceAs (Decidable (dialogue.reader.Enabled (.data bytes) ∧ bytes ≠ [] ∧
      bytes <+: dialogue.unread))
  | .readError err bytesTransfered =>
      inferInstanceAs (Decidable (dialogue.reader.Enabled (.readError err bytesTransfered)))
  | .write stops _ _ => inferInstanceAs (Decidable (.write stops ∈ dialogue.session.outstanding))

instance {σ : Type} (http : HttpParser σ) (methodStr : HttpMethod → Bytes) (size fuel : Nat)
    (dialogue : Dialogue σ) : DecidablePred ((dialogueApp http methodStr size fuel).Enabled dialogue) :=
  inferInstanceAs (DecidablePred dialogue.Enabled)

instance {σ : Type} (http : HttpParser σ) (methodStr : HttpMethod → Bytes) (size fuel : Nat)
    (control : Control) : DecidablePred ((dialogueApp http methodStr size fuel).outside control) :=
  fun _ => .isFalse id

theorem kept_followed :
    (keptInputs.foldlM (Transition.attempt Transition.unguarded
      (Serving.Enabled (dialogueApp keptParser (fun _ => []) 0 1))
      (Serving.step (dialogueApp keptParser (fun _ => []) 0 1)))
        (Serving.listen 2 ⟨⟨[], false⟩, false, [], []⟩)).bind (fun serving =>
      (KeyedList.lookup ⟨0, 7⟩ serving.handlers).map fun dialogue =>
        (dialogue.session.places, dialogue.heard)) = some ([0, 1], [keptText, keptText]) := by
  decide +kernel

/-- Both requests of the connection are served. -/
theorem kept_dialogue_served :
    ∃ serving : Serving Control (Dialogue ScriptState), ∃ dialogue,
      (Serving.runs (dialogueApp keptParser (fun _ => []) 0 1) 2 ⟨⟨[], false⟩, false, [], []⟩).Reaches
        (Serving.Guarded (fun _ => Sound keptParser fun _ => false = true)) serving ∧
      KeyedList.lookup ⟨0, 7⟩ serving.handlers = some dialogue ∧
      dialogue.session.places = [0, 1] ∧ dialogue.heard = [keptText, keptText] ∧
      Serial ⟨[], false⟩ serving.context ∧ dialogue.Answered keptParser serving.context := by
  have sample : keptScript.Sample := by decide +kernel
  have sound : Sound keptParser (fun _ => false = true) (.sends keptText) := by
    refine ⟨⟨_, by decide, _, rfl, fun fuel => rfl⟩, by decide +kernel, by decide +kernel,
      fun _ _ _ _ _ => Bool.false_ne_true⟩
  obtain ⟨serving, followed, found⟩ := Option.bind_eq_some_iff.mp kept_followed
  obtain ⟨dialogue, listed, parts⟩ := Option.map_eq_some_iff.mp found
  have allowed : ∀ state : Serving Control (Dialogue ScriptState), ∀ input ∈ keptInputs,
      Serving.Guarded (fun _ => Sound keptParser fun _ => false = true) state input := by
    intro state
    simp only [keptInputs, List.forall_mem_cons]
    exact ⟨trivial, trivial, trivial, trivial, sound, trivial, trivial, trivial, sound, trivial,
      fun _ member => absurd member List.not_mem_nil⟩
  have reached : (Serving.runs (dialogueApp keptParser (fun _ => []) 0 1) 2
      ⟨⟨[], false⟩, false, [], []⟩).Reaches
        (Serving.Guarded (fun _ => Sound keptParser fun _ => false = true)) serving :=
    Transition.ofStep_follow_allowed allowed (.initial rfl) followed
  have stopping : keptParser.Stopping := scriptedUntilEof_stopping _ _
  have splitting : keptParser.Splitting := scriptedUntilEof_splitting _ _
  have ending : keptParser.Ending (fun _ => false = true) := scriptedUntilEof_ending sample rfl
  obtain ⟨_, serial, served⟩ := dialogues_refine_control stopping splitting ending (fun _ => []) 0 0
    ⟨[], false⟩ reached
  obtain ⟨_, _, answered, _⟩ := served _ dialogue listed
  exact ⟨serving, dialogue, reached, listed, (Prod.mk.inj parts).1, (Prod.mk.inj parts).2, serial,
    answered⟩

end Marvin.SimpleProxy
