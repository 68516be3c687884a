import Marvin.Connection.TunnelExpiry

namespace Marvin.Connection

open Marvin.Data Marvin.Buffer

/-! # The course of a tunnel

What the two halves of a tunnel do in any order of completions, expired timers
included: which operations a half starts, what it hands to its write end, and what
it reports.  The calls are recorded in a log that both halves share.
-/

/-- The calls a half makes, and the calls of its own handlers. -/
inductive HalfEvent where
  | startRead
  | handleRead (err : ErrorType)
  | startWrite (data : Bytes)
  | handleWrite (err : ErrorType)
  | report (err : ErrorType)
deriving DecidableEq, Repr

namespace HalfEvent

def starts : HalfEvent → Bool
  | .startRead | .startWrite _ => true
  | _ => false

def ends : HalfEvent → Bool
  | .handleRead _ | .handleWrite _ => true
  | _ => false

def data : HalfEvent → Bytes
  | .startWrite data => data
  | _ => []

def report? : HalfEvent → Option ErrorType
  | .report err => some err
  | _ => none

def handed (log : List HalfEvent) : Bytes :=
  log.flatMap data

def reports (log : List HalfEvent) : List ErrorType :=
  log.filterMap report?

@[simp] theorem reports_append (first second : List HalfEvent) :
    reports (first ++ second) = reports first ++ reports second := by
  simp [reports]

end HalfEvent

open HalfEvent

/-- A tunnel with the log of its halves. -/
structure Recorded where
  tunnel : TunnelHandler
  log : List (End × HalfEvent)

namespace TunnelHandler

/-- What `p_handle_read` and `p_handle_write` do when the next job calls them. -/
def recordHead (tunnel : TunnelHandler) : List (End × TunnelJob) → List (End × HalfEvent)
  | (side, .handleRead result) :: _ =>
      if result.err = .ok then
        [(side, .handleRead .ok), (side, .startWrite (tunnel.halves side).buffer.contents)]
      else [(side, .handleRead result.err), (side, .report result.err)]
  | (side, .handleWrite err) :: _ =>
      if err = .ok then [(side, .handleWrite .ok), (side, .startRead)]
      else [(side, .handleWrite err), (side, .report err)]
  | _ => []

def record (tunnel : TunnelHandler) : Input → List (End × HalfEvent)
  | .run => tunnel.recordHead tunnel.queue
  | _ => []

end TunnelHandler

namespace Recorded

open TunnelHandler

/-- A read may also end without a byte. -/
def Enabled (recorded : Recorded) : Input → Prop
  | .receive side data => (recorded.tunnel.halves side).timed.phase = .operating ∧
      data.length ≤ (recorded.tunnel.halves side).buffer.capacity
  | input => recorded.tunnel.Enabled input

instance (recorded : Recorded) : DecidablePred recorded.Enabled
  | .receive _ data => inferInstanceAs (Decidable (_ ∧ data.length ≤ _))
  | .readError side err => inferInstanceAs (Decidable (recorded.tunnel.Enabled (.readError side err)))
  | .send side count => inferInstanceAs (Decidable (recorded.tunnel.Enabled (.send side count)))
  | .writeError side err =>
      inferInstanceAs (Decidable (recorded.tunnel.Enabled (.writeError side err)))
  | .expire side => inferInstanceAs (Decidable (recorded.tunnel.Enabled (.expire side)))
  | .run => inferInstanceAs (Decidable (recorded.tunnel.Enabled .run))

def step (recorded : Recorded) (input : Input) : Except Fault Recorded := do
  let tunnel ← recorded.tunnel.step input
  return ⟨tunnel, recorded.log ++ recorded.tunnel.record input⟩

def Initial (recorded : Recorded) : Prop :=
  recorded.tunnel.Initial ∧
    recorded.log = [(.upstream, .startRead), (.downstream, .startRead)]

def runs : Transition Recorded Input :=
  .ofStep Initial Enabled step

end Recorded

/-! ## One half -/

/-- One operation is outstanding, and nothing was reported. -/
structure Busy (done : Option ErrorType) (log : List HalfEvent) : Prop where
  one : log.countP starts = log.countP ends + 1
  unreported : reports log = []
  undone : done = none

theorem Busy.exchange {done : Option ErrorType} {log : List HalfEvent} (busy : Busy done log)
    {ended started : HalfEvent} (ending : ended.ends = true) (starting : started.starts = true) :
    Busy done (log ++ [ended, started]) := by
  have plain : ended.starts = false ∧ ended.report? = none := by
    cases ended with
    | handleRead err | handleWrite err => exact ⟨rfl, rfl⟩
    | startRead | startWrite data | report err => cases ending
  have silent : started.ends = false ∧ started.report? = none := by
    cases started with
    | startRead | startWrite data => exact ⟨rfl, rfl⟩
    | handleRead err | handleWrite err | report err => cases starting
  refine ⟨?_, ?_, busy.undone⟩
  · simp [busy.one, ending, starting, plain.1, silent.1]
  · rw [reports_append, busy.unreported]
    simp [reports, plain.2, silent.2]

/-- Where a half is, by the jobs it has in the queue.  A half is lost when a
successful wait was behind the completion of its read: the handler of the read is
never called. -/
inductive Course (half : HalfTunnel) (jobs : List TunnelJob) (log : List HalfEvent) : Prop where
  | reading {marks : List Mark} {outcome : Option ReadResult}
      {reads : List (Job ReadHandler ReadResult)} (queued : jobs = reads.map .read)
      (stage : Stage .cancelSocket .postRead marks outcome half.timed reads)
      (unwritten : half.writing = none) (busy : Busy half.done log)
      (carries : half.received = handed log ++ half.inTransit outcome)
  | lost {result : ReadResult} (queued : jobs = [.read (.timer .ok)] ∨ jobs = [])
      (stuck : half.timed = ⟨.cancelling (.postRead result), .cancelled⟩)
      (unwritten : half.writing = none) (busy : Busy half.done log)
      (begun : handed log <+: half.received)
  | posted {result : ReadResult} (queued : jobs = [.setSize result]) (still : half.Still)
      (unwritten : half.writing = none) (busy : Busy half.done log)
      (carries : half.received = handed log ++ half.inTransit (some result))
  | sized {result : ReadResult} (queued : jobs = [.handleRead result]) (still : half.Still)
      (unwritten : half.writing = none) (busy : Busy half.done log)
      (carries : half.received = handed log ++ half.inTransit (some result))
      (exact : half.buffer.mLength = result.bytesTransfered)
  | writing {rest : Bytes} (queued : jobs = []) (still : half.Still)
      (going : half.writing = some rest) (busy : Busy half.done log)
      (carries : half.received = handed log) (buffered : rest <:+ half.buffer.contents)
  | written {err : ErrorType} (queued : jobs = [.written err] ∨ jobs = [.handleWrite err])
      (still : half.Still) (unwritten : half.writing = none) (busy : Busy half.done log)
      (carries : half.received = handed log)
  | ended {before : List HalfEvent} {err : ErrorType} (queued : jobs = []) (still : half.Still)
      (unwritten : half.writing = none) (last : log = before ++ [.report err])
      (first : reports before = []) (idle : log.countP starts = log.countP ends)
      (done : half.done = some err) (failed : err ≠ .ok) (carries : half.received = handed log)

namespace Course

variable {half : HalfTunnel} {jobs : List TunnelJob} {log : List HalfEvent} {result : ReadResult}
  {err : ErrorType}

theorem read {job : Job ReadHandler ReadResult} (course : Course half (.read job :: jobs) log) :
    (∃ marks outcome rest, jobs = rest.map .read ∧
        Stage .cancelSocket .postRead marks outcome half.timed (job :: rest) ∧
        half.writing = none ∧ Busy half.done log ∧
        half.received = handed log ++ half.inTransit outcome) ∨
      ∃ result, job = .timer .ok ∧ jobs = [] ∧
        half.timed = ⟨.cancelling (.postRead result), .cancelled⟩ ∧ half.writing = none ∧
        Busy half.done log ∧ handed log <+: half.received := by
  cases course with
  | reading queued stage unwritten busy carries =>
      obtain ⟨first, rest, rfl, same, rfl⟩ := List.map_eq_cons_iff.mp queued.symm
      cases same
      exact .inl ⟨_, _, rest, rfl, stage, unwritten, busy, carries⟩
  | lost queued stuck unwritten busy begun =>
      rcases queued with queued | queued
      · cases queued
        exact .inr ⟨_, rfl, rfl, stuck, unwritten, busy, begun⟩
      · cases queued
  | posted queued | sized queued | ended queued => cases queued
  | writing queued => cases queued
  | written queued => rcases queued with queued | queued <;> cases queued

theorem active (course : Course half jobs log)
    (moving : half.timed.phase = .operating ∨ half.timed.timeout.waiting = true) :
    ∃ marks outcome reads, jobs = reads.map .read ∧
      Stage .cancelSocket .postRead marks outcome half.timed reads ∧
      half.writing = none ∧ Busy half.done log ∧
      half.received = handed log ++ half.inTransit outcome := by
  have moves : ¬ half.Still := by
    intro given
    obtain ⟨idle, off⟩ := given
    rw [idle, off] at moving
    rcases moving with moving | moving <;> cases moving
  cases course with
  | reading queued stage unwritten busy carries =>
      exact ⟨_, _, _, queued, stage, unwritten, busy, carries⟩
  | lost _ stuck =>
      rw [stuck] at moving
      rcases moving with moving | moving <;> cases moving
  | posted _ still | sized _ still | ended _ still => exact absurd still moves
  | writing _ still => exact absurd still moves
  | written _ still => exact absurd still moves

theorem startRead (still : half.Still) (unwritten : half.writing = none) (busy : Busy half.done log)
    (carries : half.received = handed log) :
    Course half.pStartRead.1 half.pStartRead.2 log := by
  have resting : Stage .cancelSocket .postRead [] none half.timed [] := by
    obtain ⟨⟨timeout, phase⟩, _⟩ := half
    obtain ⟨rfl, off⟩ := still
    exact .idle off
  obtain ⟨_, _, stage⟩ := resting.begin still.1
  refine .reading rfl stage unwritten busy ?_
  exact carries.trans (List.append_nil _).symm

theorem receive (course : Course half jobs log) (operating : half.timed.phase = .operating)
    (data : Bytes) : Course (half.receive data).1 (jobs ++ (half.receive data).2) log := by
  obtain ⟨marks, outcome, reads, rfl, stage, unwritten, busy, carries⟩ :=
    course.active (.inl operating)
  obtain ⟨rfl, later⟩ := stage.complete operating ⟨.ok, data.length⟩
  refine .reading (List.map_append).symm later unwritten
    busy ?_
  have before : half.received = handed log := carries.trans (List.append_nil _)
  have transit : (half.receive data).1.inTransit (some ⟨.ok, data.length⟩) = data :=
    half.buffer.peek_receive data
  rw [transit]
  exact congrArg (· ++ data) before

theorem readFails (course : Course half jobs log) (operating : half.timed.phase = .operating)
    (failed : err ≠ .ok) : Course (half.readFails err).1 (jobs ++ (half.readFails err).2) log := by
  obtain ⟨marks, outcome, reads, rfl, stage, unwritten, busy, carries⟩ :=
    course.active (.inl operating)
  obtain ⟨rfl, later⟩ := stage.complete operating ⟨err, 0⟩
  refine .reading (List.map_append).symm later unwritten
    busy ?_
  have transit : (half.readFails err).1.inTransit (some ⟨err, 0⟩) = [] := if_neg failed
  rw [transit]
  exact carries

theorem expire (course : Course half jobs log) (waiting : half.timed.timeout.waiting = true) :
    Course (half.withTimed half.timed.expire).1
      (jobs ++ (half.withTimed half.timed.expire).2) log := by
  obtain ⟨marks, outcome, reads, rfl, stage, unwritten, busy, carries⟩ :=
    course.active (.inr waiting)
  exact .reading (List.map_append).symm (stage.expire waiting) unwritten
    busy carries

theorem going {rest : Bytes} (course : Course half jobs log) (outstanding : half.writing = some rest) :
    jobs = [] ∧ half.Still ∧ Busy half.done log ∧ half.received = handed log ∧
      rest <:+ half.buffer.contents := by
  cases course with
  | writing queued still same busy carries buffered =>
      obtain rfl := Option.some.inj (outstanding.symm.trans same)
      exact ⟨queued, still, busy, carries, buffered⟩
  | reading _ _ unwritten | lost _ _ unwritten | posted _ _ unwritten | sized _ _ unwritten
  | written _ _ unwritten | ended _ _ unwritten => simp [unwritten] at outstanding

theorem send {rest : Bytes} (course : Course half jobs log) (outstanding : half.writing = some rest)
    (count : Nat) : Course (half.send rest count).1 (jobs ++ (half.send rest count).2) log := by
  obtain ⟨rfl, still, busy, carries, buffered⟩ := course.going outstanding
  unfold HalfTunnel.send
  split
  · exact .written (.inl rfl) still rfl busy carries
  · exact .writing rfl still rfl busy carries
      ((List.drop_suffix count rest).trans buffered)

theorem writeFails {rest : Bytes} {delivery : Delivery} (course : Course half jobs log)
    (outstanding : half.writing = some rest) :
    Course (half.writeFails err delivery).1 (jobs ++ (half.writeFails err delivery).2) log := by
  obtain ⟨rfl, still, busy, carries, _⟩ := course.going outstanding
  exact .written (.inl rfl) still rfl busy carries

theorem timer (course : Course half (.read (.timer err) :: jobs) log) :
    ∃ change, half.timed.handleTimer err = .ok change ∧
      Course (half.withTimed change).1 (jobs ++ (half.withTimed change).2) log := by
  rcases course.read with ⟨marks, outcome, rest, rfl, stage, unwritten, busy, carries⟩ |
    ⟨result, same, rfl, stuck, unwritten, busy, begun⟩
  · obtain ⟨after, posted, handled, later⟩ := stage.timer
    exact ⟨(after, posted), handled, .reading (List.map_append).symm later unwritten
      busy carries⟩
  · cases same
    refine ⟨(half.timed, []), by rw [stuck]; rfl, ?_⟩
    exact .lost (.inr rfl) stuck unwritten busy begun

/-- The completion of a read is handled.  With a successful wait behind it the read
is lost. -/
theorem operation (course : Course half (.read (.operation result) :: jobs) log) :
    ∃ change, half.timed.handleOperation (.postRead result) = .ok change ∧
      Course (half.withTimed change).1 (jobs ++ (half.withTimed change).2) log := by
  rcases course.read with ⟨marks, outcome, rest, rfl, stage, unwritten, busy, carries⟩ |
    ⟨_, same, _⟩
  · by_cases behind : .timer .ok ∈ rest
    · obtain ⟨rfl, handled⟩ := stage.late behind
      exact ⟨_, handled, .lost (.inl rfl) rfl unwritten busy ⟨_, carries.symm⟩⟩
    · obtain ⟨rfl, after, posted, handled, later⟩ := stage.operation behind
      exact ⟨(after, posted), handled, .reading (List.map_append).symm later unwritten busy
        carries⟩
  · cases same

theorem cancelSocket (course : Course half (.read (.run .cancelSocket) :: jobs) log) :
    Course half jobs log := by
  rcases course.read with ⟨marks, outcome, rest, rfl, stage, unwritten, busy, carries⟩ |
    ⟨_, same, _⟩
  · rcases stage.run with ⟨_, later⟩ | ⟨_, same, _⟩
    · exact .reading rfl later unwritten busy carries
    · cases same
  · cases same

theorem postRead (course : Course half (.read (.run (.postRead result)) :: jobs) log) :
    Course { half with timed := { half.timed with phase := .idle } } (jobs ++ [.setSize result])
      log := by
  rcases course.read with ⟨marks, outcome, rest, rfl, stage, unwritten, busy, carries⟩ |
    ⟨_, same, _⟩
  · rcases stage.run with ⟨same, _⟩ | ⟨_, same, rfl, rfl, quiet, _⟩
    · cases same
    · cases same
      refine .posted rfl ⟨rfl, ?_⟩ unwritten busy carries
      rw [quiet]
      rfl
  · cases same

theorem single {job : TunnelJob} (course : Course half (job :: jobs) log)
    (other : ∀ read, job ≠ .read read) :
    jobs = [] ∧ half.Still ∧ half.writing = none ∧ Busy half.done log ∧
      ((∃ result, job = .setSize result ∧
          half.received = handed log ++ half.inTransit (some result)) ∨
        (∃ result, job = .handleRead result ∧
          half.received = handed log ++ half.inTransit (some result) ∧
          half.buffer.mLength = result.bytesTransfered) ∨
        ∃ err, (job = .written err ∨ job = .handleWrite err) ∧ half.received = handed log) := by
  cases course with
  | reading queued =>
      obtain ⟨first, rest, _, same, _⟩ := List.map_eq_cons_iff.mp queued.symm
      exact absurd same.symm (other first)
  | lost queued =>
      rcases queued with queued | queued
      · exact absurd (List.cons.inj queued).1 (other _)
      · cases queued
  | posted queued still unwritten busy carries =>
      cases queued
      exact ⟨rfl, still, unwritten, busy, .inl ⟨_, rfl, carries⟩⟩
  | sized queued still unwritten busy carries exact =>
      cases queued
      exact ⟨rfl, still, unwritten, busy, .inr (.inl ⟨_, rfl, carries, exact⟩)⟩
  | writing queued => cases queued
  | written queued still unwritten busy carries =>
      rcases queued with queued | queued
      · cases queued
        exact ⟨rfl, still, unwritten, busy, .inr (.inr ⟨_, .inl rfl, carries⟩)⟩
      · cases queued
        exact ⟨rfl, still, unwritten, busy, .inr (.inr ⟨_, .inr rfl, carries⟩)⟩
  | ended queued => cases queued

theorem setSize (course : Course half (.setSize result :: jobs) log) :
    Course { half with buffer := half.buffer.setSize result.bytesTransfered }
      (jobs ++ [.handleRead result]) log := by
  obtain ⟨rfl, still, unwritten, busy, ⟨_, same, carries⟩ | ⟨_, same, _⟩ | ⟨_, same | same, _⟩⟩ :=
    course.single (fun _ => TunnelJob.noConfusion)
  · cases same
    exact .sized rfl still unwritten busy carries rfl
  all_goals cases same

theorem handleRead (course : Course half (.handleRead result :: jobs) log)
    (arrived : result.err = .ok) :
    Course { half with writing := some half.buffer.contents } jobs
      (log ++ [.handleRead .ok, .startWrite half.buffer.contents]) := by
  obtain ⟨rfl, still, unwritten, busy, ⟨_, same, _⟩ | ⟨_, same, carries, exact⟩ |
    ⟨_, same | same, _⟩⟩ := course.single (fun _ => TunnelJob.noConfusion)
  · cases same
  · cases same
    refine .writing rfl still rfl (busy.exchange rfl rfl) ?_ (List.suffix_refl _)
    simp only [HalfTunnel.inTransit, if_pos arrived, ← exact] at carries
    simpa [handed, data, ContigBuffer.contents] using carries
  all_goals cases same

theorem report {event : HalfEvent} (still : half.Still) (unwritten : half.writing = none)
    (busy : Busy half.done log) (failed : err ≠ .ok) (carries : half.received = handed log)
    (ending : event = .handleRead err ∨ event = .handleWrite err) :
    Course { half with done := some err } [] (log ++ [event, .report err]) := by
  obtain ⟨silent, unstarted, ended, empty⟩ :
      event.report? = none ∧ event.starts = false ∧ event.ends = true ∧ event.data = [] := by
    rcases ending with rfl | rfl
    · exact ⟨rfl, rfl, rfl, rfl⟩
    · exact ⟨rfl, rfl, rfl, rfl⟩
  obtain ⟨idle, unended, nothing⟩ : (HalfEvent.report err).starts = false ∧
      (HalfEvent.report err).ends = false ∧ (HalfEvent.report err).data = [] := ⟨rfl, rfl, rfl⟩
  refine @Course.ended _ _ _ (log ++ [event]) err rfl still unwritten ?_ ?_ ?_ rfl failed ?_
  · simp
  · rw [reports_append, busy.unreported]
    simp [reports, silent]
  · simp [busy.one, unstarted, ended, idle, unended]
  · simpa [handed, empty, nothing] using carries

theorem handleReadError (course : Course half (.handleRead result :: jobs) log)
    (failed : result.err ≠ .ok) :
    Course { half with done := some result.err } jobs
      (log ++ [.handleRead result.err, .report result.err]) := by
  obtain ⟨rfl, still, unwritten, busy, ⟨_, same, _⟩ | ⟨_, same, carries, _⟩ |
    ⟨_, same | same, _⟩⟩ := course.single (fun _ => TunnelJob.noConfusion)
  · cases same
  · cases same
    simp only [HalfTunnel.inTransit, if_neg failed, List.append_nil] at carries
    exact report still unwritten busy failed carries (.inl rfl)
  all_goals cases same

theorem writtenJob (course : Course half (.written err :: jobs) log) :
    Course half (jobs ++ [.handleWrite err]) log := by
  obtain ⟨rfl, still, unwritten, busy, ⟨_, same, _⟩ | ⟨_, same, _⟩ | ⟨_, same | same, carries⟩⟩ :=
    course.single (fun _ => TunnelJob.noConfusion)
  · cases same
  · cases same
  · cases same
    exact .written (.inr rfl) still unwritten busy carries
  · cases same

theorem handleWrite (course : Course half (.handleWrite .ok :: jobs) log) :
    Course half.pStartRead.1 (jobs ++ half.pStartRead.2)
      (log ++ [.handleWrite .ok, .startRead]) := by
  obtain ⟨rfl, still, unwritten, busy, ⟨_, same, _⟩ | ⟨_, same, _⟩ | ⟨_, same | same, carries⟩⟩ :=
    course.single (fun _ => TunnelJob.noConfusion)
  · cases same
  · cases same
  · cases same
  · refine startRead still unwritten (busy.exchange rfl rfl) ?_
    simpa [handed, data] using carries

theorem handleWriteError (course : Course half (.handleWrite err :: jobs) log) (failed : err ≠ .ok) :
    Course { half with done := some err } jobs (log ++ [.handleWrite err, .report err]) := by
  obtain ⟨rfl, still, unwritten, busy, ⟨_, same, _⟩ | ⟨_, same, _⟩ | ⟨_, same | same, carries⟩⟩ :=
    course.single (fun _ => TunnelJob.noConfusion)
  · cases same
  · cases same
  · cases same
  · exact report still unwritten busy failed carries (.inr rfl)

end Course

/-! ## Both halves -/

namespace TunnelHandler

variable {tunnel : TunnelHandler} {side : End} {log : List (End × HalfEvent)} {err : ErrorType}

def allReports (log : List (End × HalfEvent)) : List ErrorType :=
  reports (log.map Prod.snd)

@[simp] theorem allReports_append (first second : List (End × HalfEvent)) :
    allReports (first ++ second) = allReports first ++ allReports second := by
  simp [allReports]

def bothDone (tunnel : TunnelHandler) : Prop :=
  (tunnel.halves .upstream).done.isSome ∧ (tunnel.halves .downstream).done.isSome

instance (tunnel : TunnelHandler) : Decidable tunnel.bothDone :=
  inferInstanceAs (Decidable (_ ∧ _))

/-- The first error is kept, and given to the callback once both halves are done. -/
structure Accounted (tunnel : TunnelHandler) (log : List (End × HalfEvent)) : Prop where
  failed : .ok ∉ allReports log
  first : tunnel.firstErr = (allReports log).headD .ok
  called : tunnel.callbacks = if tunnel.bothDone then [tunnel.firstErr] else []

theorem act_done {change : HalfTunnel × List TunnelJob}
    (same : change.1.done = (tunnel.halves side).done) (other : End) :
    ((tunnel.act side change).halves other).done = (tunnel.halves other).done := by
  by_cases equal : other = side
  · subst equal
    simpa [act] using same
  · simp [act, equal]

theorem Accounted.act {change : HalfTunnel × List TunnelJob} (accounted : tunnel.Accounted log)
    (same : change.1.done = (tunnel.halves side).done) :
    (tunnel.act side change).Accounted log where
  failed := accounted.failed
  first := accounted.first
  called := by
    have done := @act_done tunnel side change same
    have both : (tunnel.act side change).bothDone ↔ tunnel.bothDone := by
      rw [bothDone, bothDone, done, done]
    simp only [both]
    exact accounted.called

theorem Accounted.record {events : List (End × HalfEvent)} (accounted : tunnel.Accounted log)
    (silent : allReports events = []) : tunnel.Accounted (log ++ events) where
  failed := by simpa [silent] using accounted.failed
  first := by simpa [silent] using accounted.first
  called := accounted.called

theorem bothDone_iff (side : End) :
    tunnel.bothDone ↔ (tunnel.halves side).done.isSome ∧ (tunnel.halves side.other).done.isSome := by
  cases side with
  | upstream => rfl
  | downstream => exact And.comm

theorem tryDone_firstErr : tunnel.tryDone.firstErr = tunnel.firstErr := by
  unfold tryDone
  split <;> rfl

theorem tryDone_callbacks (uncalled : tunnel.callbacks = []) :
    tunnel.tryDone.callbacks =
      if tunnel.tryDone.bothDone then [tunnel.tryDone.firstErr] else [] := by
  have halves : tunnel.tryDone.halves = tunnel.halves := by
    unfold tryDone
    split <;> rfl
  have both : tunnel.tryDone.bothDone ↔ tunnel.bothDone := by rw [bothDone, bothDone, halves]
  simp only [both, tryDone_firstErr]
  unfold tryDone
  split
  · next ready => rw [if_pos (show tunnel.bothDone from ready), uncalled, List.nil_append]
  · next ready => rw [if_neg (show ¬tunnel.bothDone from ready), uncalled]

theorem Accounted.report {events : List (End × HalfEvent)} (accounted : tunnel.Accounted log)
    (undone : (tunnel.halves side).done = none) (failed : err ≠ .ok)
    (reported : allReports events = [err]) :
    (tunnel.onHalfDone side err).Accounted (log ++ events) := by
  have uncalled : tunnel.callbacks = [] := by
    rw [accounted.called, if_neg]
    rw [bothDone_iff side, undone]
    simp
  have absent := accounted.failed
  refine ⟨by simp [absent, reported, failed.symm], ?_, ?_⟩
  · simp only [onHalfDone, tryDone_firstErr, allReports_append, reported]
    have first : (tunnel.act side ({ tunnel.halves side with done := some err }, [])).firstErr =
        (allReports log).headD .ok := accounted.first
    rw [first]
    cases earlier : allReports log with
    | nil => simp [failed]
    | cons head rest =>
        have kept : head ≠ .ok := by
          intro same
          subst same
          exact absent (by simp [earlier])
        simp [kept, first, earlier]
  · simp only [onHalfDone]
    split
    · exact tryDone_callbacks uncalled
    · exact tryDone_callbacks uncalled

/-- Each half is on its course, and the reports are accounted for. -/
structure Recording (tunnel : TunnelHandler) (log : List (End × HalfEvent)) : Prop where
  course : ∀ side, Course (tunnel.halves side) (tagged side tunnel.queue) (tagged side log)
  accounted : tunnel.Accounted log

theorem Recording.act {change : HalfTunnel × List TunnelJob} {events : List HalfEvent}
    (own : Course change.1 (tagged side tunnel.queue ++ change.2) (tagged side log ++ events))
    (others : ∀ other, other ≠ side →
      Course (tunnel.halves other) (tagged other tunnel.queue) (tagged other log))
    (accounted : tunnel.Accounted log) (same : change.1.done = (tunnel.halves side).done)
    (silent : reports events = []) :
    (tunnel.act side change).Recording (log ++ events.map (Prod.mk side)) where
  course := by
    refine @act_each _ _ (fun other half jobs =>
      Course half jobs (tagged other (log ++ events.map (Prod.mk side)))) _ ?_ ?_
    · simpa using own
    · intro other different
      simpa [tagged_map_ne (Ne.symm different)] using others other different
  accounted := (accounted.act same).record (by simpa [allReports, Function.comp_def] using silent)

theorem Recording.done {events : List HalfEvent}
    (own : Course { tunnel.halves side with done := some err } (tagged side tunnel.queue)
      (tagged side log ++ events))
    (others : ∀ other, other ≠ side →
      Course (tunnel.halves other) (tagged other tunnel.queue) (tagged other log))
    (accounted : tunnel.Accounted log) (undone : (tunnel.halves side).done = none)
    (failed : err ≠ .ok) (reported : reports events = [err]) :
    (tunnel.onHalfDone side err).Recording (log ++ events.map (Prod.mk side)) where
  course := by
    refine @onHalfDone_each _ _ (fun other half jobs =>
      Course half jobs (tagged other (log ++ events.map (Prod.mk side)))) _ ?_ ?_
    · simpa using own
    · intro other different
      simpa [tagged_map_ne (Ne.symm different)] using others other different
  accounted := accounted.report undone failed
    (by simpa [allReports, Function.comp_def] using reported)

theorem Recording.move {change : HalfTunnel × List TunnelJob}
    (own : Course change.1 (tagged side tunnel.queue ++ change.2) (tagged side log))
    (others : ∀ other, other ≠ side →
      Course (tunnel.halves other) (tagged other tunnel.queue) (tagged other log))
    (accounted : tunnel.Accounted log) (same : change.1.done = (tunnel.halves side).done) :
    (tunnel.act side change).Recording log := by
  have moved := @Recording.act tunnel side log change [] (by simpa using own) others accounted same rfl
  simpa using moved

theorem Recording.socketCancel (recording : tunnel.Recording log) :
    (tunnel.socketCancel side).Recording log := by
  have first : (if (tunnel.halves side).timed.phase = .operating then
      tunnel.act side ((tunnel.halves side).readFails .operationAborted) else tunnel).Recording
        log := by
    split
    · next operating =>
        exact .move ((recording.course side).readFails operating (by decide))
          (fun other _ => recording.course other) recording.accounted rfl
    · exact recording
  unfold TunnelHandler.socketCancel
  generalize (if (tunnel.halves side).timed.phase = .operating then
    tunnel.act side ((tunnel.halves side).readFails .operationAborted) else tunnel) = after at first ⊢
  dsimp only
  split
  · next outstanding =>
      obtain ⟨rest, going⟩ := Option.isSome_iff_exists.mp outstanding
      exact .move ((first.course side.other).writeFails going) (fun other _ => first.course other)
        first.accounted rfl
  · exact first

theorem Recording.runJob {job : TunnelJob} {queue : List (End × TunnelJob)}
    (recording : tunnel.Recording log) (first : tunnel.queue = (side, job) :: queue) :
    ∃ next, { tunnel with queue }.runJob side job = .ok next ∧
      next.Recording (log ++ tunnel.recordHead ((side, job) :: queue)) := by
  have own := recording.course side
  rw [first, tagged_cons_self] at own
  have others : ∀ other, other ≠ side →
      Course (tunnel.halves other) (tagged other queue) (tagged other log) := by
    intro other different
    have course := recording.course other
    rwa [first, tagged_cons_ne (Ne.symm different)] at course
  have accounted : { tunnel with queue }.Accounted log :=
    ⟨recording.accounted.failed, recording.accounted.first, recording.accounted.called⟩
  cases job with
  | read job =>
      simp only [recordHead, List.append_nil]
      cases job with
      | timer err =>
          obtain ⟨change, handled, later⟩ := own.timer
          refine ⟨_, by simp only [TunnelHandler.runJob, handled]; rfl, ?_⟩
          exact .move later others accounted rfl
      | operation result =>
          obtain ⟨change, handled, later⟩ := own.operation
          refine ⟨_, by simp only [TunnelHandler.runJob, handled]; rfl, ?_⟩
          exact .move later others accounted rfl
      | run handler =>
          cases handler with
          | cancelSocket =>
              refine ⟨_, rfl, Recording.socketCancel ⟨fun other => ?_, accounted⟩⟩
              by_cases same : other = side
              · exact same ▸ own.cancelSocket
              · exact others other same
          | postRead result => exact ⟨_, rfl, .move own.postRead others accounted rfl⟩
  | setSize result =>
      simp only [recordHead, List.append_nil]
      exact ⟨_, rfl, .move own.setSize others accounted rfl⟩
  | written err =>
      simp only [recordHead, List.append_nil]
      exact ⟨_, rfl, .move own.writtenJob others accounted rfl⟩
  | handleRead result =>
      refine ⟨_, rfl, ?_⟩
      simp only [pHandleRead, recordHead]
      obtain ⟨_, _, _, busy, _⟩ := own.single (fun _ => TunnelJob.noConfusion)
      split
      · next arrived =>
          have later := own.handleRead arrived
          rw [← List.append_nil (tagged side queue)] at later
          exact @Recording.act { tunnel with queue } side log (_, []) _ later others accounted rfl rfl
      · next failed =>
          exact .done (own.handleReadError failed) others accounted busy.undone failed rfl
  | handleWrite err =>
      refine ⟨_, rfl, ?_⟩
      simp only [pHandleWrite, recordHead]
      obtain ⟨_, _, _, busy, _⟩ := own.single (fun _ => TunnelJob.noConfusion)
      split
      · next done =>
          subst done
          exact .act own.handleWrite others accounted rfl rfl
      · next failed =>
          exact .done (own.handleWriteError failed) others accounted busy.undone failed rfl

end TunnelHandler

namespace Recorded

open TunnelHandler

variable {recorded : Recorded}

theorem step_keeps {input : Input} (recording : recorded.tunnel.Recording recorded.log)
    (enabled : recorded.Enabled input) :
    ∃ next, recorded.step input = .ok next ∧ next.tunnel.Recording next.log := by
  have others (side other : End) (_ : other ≠ side) := recording.course other
  suffices stepped : ∃ next, recorded.tunnel.step input = .ok next ∧
      next.Recording (recorded.log ++ recorded.tunnel.record input) by
    obtain ⟨next, ran, kept⟩ := stepped
    exact ⟨⟨next, _⟩, by simp only [step, ran]; rfl, kept⟩
  cases input with
  | run =>
      cases first : recorded.tunnel.queue with
      | nil => exact absurd first enabled
      | cons entry queue =>
          obtain ⟨next, ran, kept⟩ := recording.runJob first
          refine ⟨next, by simpa only [TunnelHandler.step, first] using ran, ?_⟩
          simpa only [record, first] using kept
  | receive side data =>
      simp only [record, List.append_nil]
      exact ⟨_, rfl, .move ((recording.course side).receive enabled.1 data) (others side)
        recording.accounted rfl⟩
  | readError side err =>
      simp only [record, List.append_nil]
      exact ⟨_, rfl, .move ((recording.course side).readFails enabled.1 enabled.2) (others side)
        recording.accounted rfl⟩
  | send side count =>
      simp only [record, List.append_nil]
      obtain ⟨rest, going⟩ := Option.ne_none_iff_exists'.mp enabled
      refine ⟨_, by simp only [TunnelHandler.step, going]; rfl, ?_⟩
      refine .move ((recording.course side).send going count) (others side) recording.accounted ?_
      unfold HalfTunnel.send
      split <;> rfl
  | writeError side err =>
      simp only [record, List.append_nil]
      obtain ⟨rest, going⟩ := Option.ne_none_iff_exists'.mp enabled.1
      exact ⟨_, rfl, .move ((recording.course side).writeFails going) (others side)
        recording.accounted rfl⟩
  | expire side =>
      simp only [record, List.append_nil]
      exact ⟨_, rfl, .move ((recording.course side).expire enabled) (others side)
        recording.accounted rfl⟩

end Recorded

end Marvin.Connection
