import Marvin.Connection.Connection
import Marvin.Connection.Timeout
import Marvin.Data.Transition

namespace Marvin.Connection

open Marvin.Data

/-! # Connecting to one of several endpoints

`Connection::async_connect` of `marvin/connection/connection.cpp`, from the result
of the resolver to the post of the callback.  Each attempt has a timeout around it,
whose expire handler cancels the socket.  The completion handler of an attempt
cancels the timeout, and the cancel handler goes on with the iterator that the
completion handler has captured.  A cancelled attempt may end in any way.
-/

/-- What the callback is posted with; `conn` says that the pointer is not null. -/
structure Report where
  err : ErrorType
  conn : Bool
deriving DecidableEq, Repr

/-- The asynchronous operation in progress, the timer apart. -/
inductive Pending where
  | resolve
  | connect
  | handshake
  | nothing
deriving DecidableEq, Repr

/-- The handlers given to the timeout. -/
inductive ConnectHandler (ε : Type) where
  | cancelSocket
  | handleConnect (err : ErrorType) (next : List ε)
deriving DecidableEq, Repr

structure Connecting (ε : Type) where
  connection : Connection
  timed : Timed (ConnectHandler ε)
  queue : List (Job (ConnectHandler ε) ErrorType)
  pending : Pending
  /-- The iterator captured by the completion handler of the attempt. -/
  nextIter : List ε
  /-- The endpoints passed to `m_tcp_socket.async_connect`. -/
  attempts : List ε
  /-- The errors passed to `p_handle_connect`. -/
  outcomes : List ErrorType
  /-- The errors passed to `p_handle_handshake`. -/
  handshakes : List ErrorType
  posted : List Report

namespace Connecting

variable {ε : Type}

def pPostConnectCb (connecting : Connecting ε) (err : ErrorType) : Connecting ε :=
  { connecting with posted := connecting.posted ++ [⟨err, err = .ok⟩] }

def post (connecting : Connecting ε)
    (change : Timed (ConnectHandler ε) × List (Job (ConnectHandler ε) ErrorType)) : Connecting ε :=
  { connecting with timed := change.1, queue := connecting.queue ++ change.2 }

/-- The timeout, the captured iterator and the attempt, as in both functions that
start one. -/
def attempt (connecting : Connecting ε) (endpoint : ε) (next : List ε) : Connecting ε :=
  { connecting.post (connecting.timed.begin .cancelSocket) with
    pending := .connect
    nextIter := next
    attempts := connecting.attempts ++ [endpoint] }

def pHandleResolve (connecting : Connecting ε) (err : ErrorType) :
    List ε → Connecting ε
  | [] => if err = .ok then connecting.pPostConnectCb hostUnreachable
      else connecting.pPostConnectCb err
  | endpoint :: next =>
      if err ≠ .ok then connecting.pPostConnectCb err else connecting.attempt endpoint next

def pStartHandshake (connecting : Connecting ε) : Except Fault (Connecting ε) := do
  let connection ← connecting.connection.pStartHandshake
  return { connecting with connection, pending := .handshake }

def pHandleConnect (connecting : Connecting ε) (err : ErrorType) (next : List ε) :
    Except Fault (Connecting ε) :=
  let connecting := { connecting with outcomes := connecting.outcomes ++ [err] }
  if err = .ok then
    if connecting.connection.mode = .notSecure then return connecting.pPostConnectCb err
    else connecting.pStartHandshake
  else
    match next with
    | endpoint :: next => return connecting.attempt endpoint next
    | [] => return connecting.pPostConnectCb err

def pHandleHandshake (connecting : Connecting ε) (err : ErrorType) : Connecting ε :=
  let (connection, err) := connecting.connection.pHandleHandshake err
  { connecting with connection, handshakes := connecting.handshakes ++ [err] }.pPostConnectCb err

def runJob (connecting : Connecting ε) :
    Job (ConnectHandler ε) ErrorType → Except Fault (Connecting ε)
  | .timer err => return connecting.post (← connecting.timed.handleTimer err)
  | .operation err =>
      return connecting.post
        (← connecting.timed.handleOperation (.handleConnect err connecting.nextIter))
  | .run .cancelSocket => return connecting
  | .run (.handleConnect err next) =>
      { connecting with
        timed := { connecting.timed with phase := .idle }
        pending := .nothing }.pHandleConnect err next

inductive Input where
  | resolve
  | expire
  | complete (err : ErrorType)
  | handshake (err : ErrorType)
  | run
deriving DecidableEq, Repr

def Enabled (connecting : Connecting ε) : Input → Prop
  | .resolve => connecting.pending = .resolve
  | .expire => connecting.timed.timeout.waiting = true
  | .complete _ => connecting.timed.phase = .operating
  | .handshake _ => connecting.pending = .handshake
  | .run => connecting.queue ≠ []

variable (resolver : ErrorType × List ε)

def step (connecting : Connecting ε) : Input → Except Fault (Connecting ε)
  | .resolve =>
      return { connecting with pending := .nothing }.pHandleResolve resolver.1 resolver.2
  | .expire => return connecting.post connecting.timed.expire
  | .complete err => return connecting.post (connecting.timed.complete err)
  | .handshake err => return { connecting with pending := .nothing }.pHandleHandshake err
  | .run =>
      match connecting.queue with
      | [] => return connecting
      | job :: queue => { connecting with queue }.runJob job

/-- `async_connect` was called, with no wait of the timer pending. -/
def Initial (connection : Connection) (connecting : Connecting ε) : Prop :=
  ∃ timeout : Timeout (ConnectHandler ε), ∃ next, timeout.waiting = false ∧
    connecting = ⟨connection, ⟨timeout, .idle⟩, [], .resolve, next, [], [], [], []⟩

def runs (connection : Connection) : Transition (Connecting ε) Input :=
  .ofStep (Initial connection) Enabled (step resolver)

/-- The timeout delivers the cancel handlers. -/
def Timely (connecting : Connecting ε) : Input → Prop
  | .run => Unraced connecting.queue
  | _ => True

/-! ## The course of a connect -/

/-- Everything a connect goes through: resolving, the attempts, a handshake, and
the five ways it ends. -/
inductive Course (connection : Connection) (resolver : ErrorType × List ε) :
    Connecting ε → Prop where
  | resolving {timeout : Timeout (ConnectHandler ε)} {next : List ε}
      (still : timeout.waiting = false) :
      Course connection resolver
        ⟨connection, ⟨timeout, .idle⟩, [], .resolve, next, [], [], [], []⟩
  | connecting {timed : Timed (ConnectHandler ε)} {queue : List (Job (ConnectHandler ε) ErrorType)}
      {tried next : List ε} {failed : List ErrorType} {marks : List Mark}
      {outcome : Option ErrorType} (resolved : resolver = (.ok, tried ++ next))
      (failures : .ok ∉ failed) (each : tried.length = failed.length + 1)
      (stage : Stage .cancelSocket (.handleConnect · next) marks outcome timed queue)
      (busy : timed.phase ≠ .idle) :
      Course connection resolver ⟨connection, timed, queue, .connect, next, tried, failed, [], []⟩
  | handshaking {timeout : Timeout (ConnectHandler ε)} {tried next : List ε}
      {failed : List ErrorType} (still : timeout.waiting = false)
      (resolved : resolver = (.ok, tried ++ next)) (failures : .ok ∉ failed)
      (each : tried.length = failed.length + 1) (secure : connection.mode ≠ .notSecure) :
      Course connection resolver ⟨connection, ⟨timeout, .idle⟩, [], .handshake, next, tried,
        failed ++ [.ok], [], []⟩
  | unresolved {timeout : Timeout (ConnectHandler ε)} {next : List ε}
      (still : timeout.waiting = false) (failed : resolver.1 ≠ .ok) :
      Course connection resolver ⟨connection, ⟨timeout, .idle⟩, [], .nothing, next, [], [], [],
        [⟨resolver.1, false⟩]⟩
  | unreachable {timeout : Timeout (ConnectHandler ε)} {next : List ε}
      (still : timeout.waiting = false) (resolved : resolver = (.ok, [])) :
      Course connection resolver ⟨connection, ⟨timeout, .idle⟩, [], .nothing, next, [], [], [],
        [⟨hostUnreachable, false⟩]⟩
  | refused {timeout : Timeout (ConnectHandler ε)} {tried next : List ε} {failed : List ErrorType}
      {err : ErrorType} (still : timeout.waiting = false) (resolved : resolver = (.ok, tried))
      (failures : .ok ∉ failed) (each : tried.length = failed.length + 1) (last : err ≠ .ok) :
      Course connection resolver ⟨connection, ⟨timeout, .idle⟩, [], .nothing, next, tried,
        failed ++ [err], [], [⟨err, false⟩]⟩
  | connected {timeout : Timeout (ConnectHandler ε)} {tried next : List ε}
      {failed : List ErrorType} (still : timeout.waiting = false)
      (resolved : resolver = (.ok, tried ++ next)) (failures : .ok ∉ failed)
      (each : tried.length = failed.length + 1) (plain : connection.mode = .notSecure) :
      Course connection resolver ⟨connection, ⟨timeout, .idle⟩, [], .nothing, next, tried,
        failed ++ [.ok], [], [⟨.ok, true⟩]⟩
  | handshaken {timeout : Timeout (ConnectHandler ε)} {tried next : List ε}
      {failed : List ErrorType} {err : ErrorType} (still : timeout.waiting = false)
      (resolved : resolver = (.ok, tried ++ next)) (failures : .ok ∉ failed)
      (each : tried.length = failed.length + 1) (secure : connection.mode ≠ .notSecure) :
      Course connection resolver ⟨(connection.pHandleHandshake err).1, ⟨timeout, .idle⟩, [],
        .nothing, next, tried, failed ++ [.ok], [err], [⟨err, err = .ok⟩]⟩

/-! ## Steps that are left -/

def jobRank : Job (ConnectHandler ε) ErrorType → Nat
  | .timer _ => 2
  | .operation _ | .run _ => 1

def phaseRank : Phase → Nat
  | .idle => 0
  | .operating => 4
  | .completed => 2
  | .cancelled => 1

def attemptRank (timed : Timed (ConnectHandler ε))
    (queue : List (Job (ConnectHandler ε) ErrorType)) : Nat :=
  3 * timed.timeout.waiting.toNat + phaseRank timed.phase + (queue.map jobRank).sum

/-- A bound on the steps that are left. -/
def rank (connecting : Connecting ε) : Nat :=
  match connecting.pending with
  | .resolve => 8 * resolver.2.length + 2
  | .connect => attemptRank connecting.timed connecting.queue + 8 * connecting.nextIter.length + 1
  | .handshake => 1
  | .nothing => 0

section Rank

variable {timed after : Timed (ConnectHandler ε)} {handler : ConnectHandler ε} {err : ErrorType}
  {queue posted : List (Job (ConnectHandler ε) ErrorType)}

theorem begin_rank (still : timed.timeout.waiting = false) :
    attemptRank (timed.begin handler : _ × List (Job (ConnectHandler ε) ErrorType)).1
      (timed.begin handler).2 = 7 := by
  simp [Timed.begin, Timeout.setTimeout, Timeout.expiresFromNow, still, attemptRank, phaseRank]

theorem expire_rank (waits : timed.timeout.waiting = true) :
    attemptRank (timed.expire : _ × List (Job (ConnectHandler ε) ErrorType)).1
      (queue ++ timed.expire.2) < attemptRank timed queue := by
  simp only [attemptRank, Timed.expire, Timeout.timerExpire, waits, List.map_append,
    List.sum_append, List.map_cons, List.map_nil, List.sum_cons, List.sum_nil, jobRank,
    Bool.toNat_true, Bool.toNat_false]
  omega

theorem complete_rank (operating : timed.phase = .operating) :
    attemptRank (timed.complete err).1 (queue ++ (timed.complete err).2) <
      attemptRank timed queue := by
  simp only [attemptRank, Timed.complete, operating, phaseRank, List.map_append, List.sum_append,
    List.map_cons, List.map_nil, List.sum_cons, List.sum_nil, jobRank]
  omega

theorem handleTimer_light (handled : timed.handleTimer err = .ok (after, posted)) :
    after.timeout.waiting = timed.timeout.waiting ∧ after.phase = timed.phase ∧
      (posted.map jobRank).sum ≤ 1 := by
  obtain ⟨timeout, phase⟩ := timed
  obtain ⟨cancel, expire, active, waiting⟩ := timeout
  cases active with
  | false => cases handled
  | true =>
      cases err with
      | ok =>
          cases expire with
          | none =>
              cases handled
              exact ⟨rfl, rfl, Nat.zero_le _⟩
          | some handler =>
              cases handled
              exact ⟨rfl, rfl, Nat.le_refl _⟩
      | operationAborted =>
          cases cancel with
          | none => cases handled
          | some handler =>
              cases handled
              exact ⟨rfl, rfl, Nat.le_refl _⟩
      | eof | parserError | other => cases handled

theorem timer_rank (handled : timed.handleTimer err = .ok (after, posted)) :
    attemptRank after (queue ++ posted) < attemptRank timed (.timer err :: queue) := by
  obtain ⟨waiting, phase, light⟩ := handleTimer_light handled
  simp only [attemptRank, waiting, phase, List.map_append, List.sum_append, List.map_cons,
    List.sum_cons, jobRank]
  omega

theorem handleOperation_light (handled : timed.handleOperation handler = .ok (after, posted)) :
    after.timeout.waiting = false ∧ after.phase = .cancelled ∧
      (posted.map jobRank).sum ≤ 1 + 2 * timed.timeout.waiting.toNat := by
  obtain ⟨timeout, phase⟩ := timed
  obtain ⟨cancel, expire, active, waiting⟩ := timeout
  cases active with
  | true =>
      cases waiting with
      | false =>
          cases handled
          exact ⟨rfl, rfl, Nat.zero_le _⟩
      | true =>
          cases handled
          exact ⟨rfl, rfl, Nat.le_succ _⟩
  | false =>
      cases expire with
      | some handler => cases handled
      | none =>
          cases waiting with
          | false =>
              cases handled
              exact ⟨rfl, rfl, Nat.le_refl _⟩
          | true =>
              cases handled
              exact ⟨rfl, rfl, Nat.le_refl _⟩

theorem operation_rank (completed : timed.phase = .completed)
    (handled : timed.handleOperation handler = .ok (after, posted)) :
    attemptRank after (queue ++ posted) < attemptRank timed (.operation err :: queue) := by
  obtain ⟨waiting, phase, light⟩ := handleOperation_light handled
  simp only [attemptRank, waiting, phase, completed, phaseRank, List.map_append, List.sum_append,
    List.map_cons, List.sum_cons, jobRank, Bool.toNat_false]
  omega

end Rank

/-- The connect has gone on, with fewer steps left. -/
def Advanced (connection : Connection) (bound : Nat) (next : Connecting ε) : Prop :=
  Course connection resolver next ∧ next.rank resolver < bound

variable {resolver} {connection : Connection} {connecting next : Connecting ε} {bound : Nat}

theorem attempt_advanced {timeout : Timeout (ConnectHandler ε)} {tried later captured : List ε}
    {endpoint : ε} {failed : List ErrorType} (still : timeout.waiting = false)
    (resolved : resolver = (.ok, tried ++ endpoint :: later)) (failures : .ok ∉ failed)
    (each : tried.length = failed.length) (room : 8 * later.length + 8 < bound) :
    Advanced resolver connection bound
      (attempt ⟨connection, ⟨timeout, .idle⟩, [], .nothing, captured, tried, failed, [], []⟩ endpoint
        later) := by
  obtain ⟨_, _, stage⟩ := (Stage.idle still : Stage (.cancelSocket : ConnectHandler ε)
    (.handleConnect · later) [] none ⟨timeout, .idle⟩ []).begin rfl
  constructor
  · apply Course.connecting
    · rw [resolved, List.append_assoc]
      rfl
    · exact failures
    · change (tried ++ [endpoint]).length = failed.length + 1
      rw [List.length_append, List.length_singleton, each]
    · exact stage
    · exact Phase.noConfusion
  · have fresh := @begin_rank ε ⟨timeout, .idle⟩ .cancelSocket still
    simp only [rank, attempt, post, List.nil_append]
    omega

section Step

theorem resolve_advanced {timeout : Timeout (ConnectHandler ε)} {captured : List ε}
    (still : timeout.waiting = false) :
    Advanced resolver connection (8 * resolver.2.length + 2)
      (pHandleResolve ⟨connection, ⟨timeout, .idle⟩, [], .nothing, captured, [], [], [], []⟩
        resolver.1 resolver.2) := by
  obtain ⟨err, endpoints⟩ := resolver
  cases endpoints with
  | nil =>
      simp only [pHandleResolve]
      split
      · next fine =>
          subst fine
          exact ⟨.unreachable still rfl, Nat.zero_lt_succ _⟩
      · next failed =>
          have course := @Course.unresolved ε connection (err, []) timeout captured still failed
          simp only [pPostConnectCb, failed, decide_false, List.nil_append]
          exact ⟨course, Nat.zero_lt_succ _⟩
  | cons endpoint later =>
      simp only [pHandleResolve]
      split
      · next failed =>
          have course :=
            @Course.unresolved ε connection (err, endpoint :: later) timeout captured still failed
          simp only [pPostConnectCb, decide_eq_false failed, List.nil_append]
          exact ⟨course, Nat.zero_lt_succ _⟩
      · next fine =>
          obtain rfl : err = .ok := not_not.mp fine
          refine @attempt_advanced ε _ connection _ timeout [] later captured endpoint [] still rfl
            List.not_mem_nil rfl ?_
          rw [List.length_cons]
          omega

theorem handleConnect_advanced {tried later : List ε} {failed : List ErrorType} {err : ErrorType}
    (resolved : resolver = (.ok, tried ++ later)) (failures : .ok ∉ failed)
    (each : tried.length = failed.length + 1) (room : 8 * later.length + 2 < bound) :
    ∃ next, pHandleConnect ⟨connection, ⟨.quiet, .idle⟩, [], .nothing, later, tried, failed, [], []⟩
        err later = .ok next ∧ Advanced resolver connection bound next := by
  have quiet : (Timeout.quiet : Timeout (ConnectHandler ε)).waiting = false := rfl
  by_cases fine : err = .ok
  · subst fine
    by_cases plain : connection.mode = .notSecure
    · refine ⟨_, ?_, .connected quiet resolved failures each plain, Nat.zero_lt_of_lt room⟩
      simp only [pHandleConnect, plain, if_true]
      rfl
    · refine ⟨_, ?_, .handshaking quiet resolved failures each plain, ?_⟩
      · simp only [pHandleConnect, plain, if_true, if_false, pStartHandshake,
          pStartHandshake_ok plain]
        rfl
      · change 1 < bound
        omega
  · cases later with
    | nil =>
        rw [List.append_nil] at resolved
        refine ⟨_, ?_, @Course.refused ε connection resolver .quiet tried [] failed err quiet resolved
          failures each fine, Nat.zero_lt_of_lt room⟩
        simp only [pHandleConnect, fine, if_false, pPostConnectCb, decide_false, List.nil_append]
        rfl
    | cons endpoint rest =>
        refine ⟨_, by simp only [pHandleConnect, fine, if_false]; rfl, ?_⟩
        apply attempt_advanced quiet resolved
        · simp [failures, Ne.symm fine]
        · rw [List.length_append, List.length_singleton, each]
        · rw [List.length_cons] at room
          omega

theorem Course.run_advanced {timed : Timed (ConnectHandler ε)} {tried later : List ε}
    {queue : List (Job (ConnectHandler ε) ErrorType)} {failed : List ErrorType} {marks : List Mark}
    {outcome : Option ErrorType} (resolved : resolver = (.ok, tried ++ later))
    (failures : .ok ∉ failed) (each : tried.length = failed.length + 1)
    {job : Job (ConnectHandler ε) ErrorType}
    (stage : Stage .cancelSocket (.handleConnect · later) marks outcome timed (job :: queue))
    (busy : timed.phase ≠ .idle) (timely : Unraced (job :: queue)) :
    ∃ next, runJob ⟨connection, timed, queue, .connect, later, tried, failed, [], []⟩ job = .ok next ∧
      Advanced resolver connection (attemptRank timed (job :: queue) + 8 * later.length + 1) next := by
  cases job with
  | timer err =>
      obtain ⟨after, posted, handled, next⟩ := stage.timer
      have less := @timer_rank ε _ _ _ queue _ handled
      refine ⟨_, by simp only [runJob, handled]; rfl, .connecting resolved failures each next ?_, ?_⟩
      · rw [(handleTimer_light handled).2.1]
        exact busy
      · simp only [rank]
        omega
  | operation err =>
      obtain ⟨_, after, posted, handled, next⟩ := stage.operation timely
      have completed : timed.phase = .completed := by
        cases stage with
        | _ => rfl
      have less := @operation_rank ε _ _ _ err queue _ completed handled
      refine ⟨_, by simp only [runJob, handled]; rfl, .connecting resolved failures each next ?_, ?_⟩
      · rw [(handleOperation_light handled).2.1]
        exact Phase.noConfusion
      · simp only [rank]
        omega
  | run handler =>
      rcases stage.run with ⟨rfl, next⟩ | ⟨err, rfl, _, rfl, rfl, _⟩
      · refine ⟨_, rfl, .connecting resolved failures each next busy, ?_⟩
        simp [rank, attemptRank, jobRank]
      · apply handleConnect_advanced resolved failures each
        simp only [attemptRank, phaseRank, List.map_cons, List.map_nil, List.sum_cons, List.sum_nil,
          jobRank]
        omega

theorem Course.step (course : Course connection resolver connecting) {input : Input}
    (enabled : connecting.Enabled input) (timely : connecting.Timely input) :
    ∃ next, connecting.step resolver input = .ok next ∧
      Advanced resolver connection (connecting.rank resolver) next := by
  cases input with
  | resolve =>
      cases course with
      | resolving still => exact ⟨_, rfl, resolve_advanced still⟩
      | _ => cases enabled
  | expire =>
      cases course with
      | @connecting timed queue tried next failed marks outcome resolved failures each stage busy =>
          have less := @expire_rank ε timed queue enabled
          refine ⟨_, rfl, .connecting resolved failures each (stage.expire enabled) busy, ?_⟩
          simp only [rank, post]
          omega
      | resolving still | handshaking still | unresolved still | unreachable still | refused still
      | connected still | handshaken still => cases still.symm.trans enabled
  | complete err =>
      cases course with
      | @connecting timed queue tried next failed marks outcome resolved failures each stage busy =>
          have less := @complete_rank ε timed err queue enabled
          refine ⟨_, rfl, .connecting resolved failures each (stage.complete enabled err).2
            Phase.noConfusion, ?_⟩
          simp only [rank, post]
          omega
      | _ => cases enabled
  | handshake err =>
      cases course with
      | handshaking still resolved failures each secure =>
          refine ⟨_, rfl, ?_, Nat.zero_lt_one⟩
          simp only [pHandleHandshake, Connection.pHandleHandshake_err, pPostConnectCb,
            List.nil_append]
          exact .handshaken still resolved failures each secure
      | _ => cases enabled
  | run =>
      cases course with
      | @connecting timed queue tried next failed marks outcome resolved failures each stage busy =>
          cases queue with
          | nil => exact absurd rfl enabled
          | cons job rest =>
              exact Course.run_advanced resolved failures each stage busy timely
      | _ => exact absurd rfl enabled

end Step

/-- The report of a connect that has ended: success and the pointer when an endpoint
was reached and, for a secured connection, the handshake succeeded; else no pointer
and the error of what failed last. -/
structure Reports (connection : Connection) (resolver : ErrorType × List ε)
    (connecting : Connecting ε) (report : Report) : Prop where
  conn : report.conn = true ↔ report.err = .ok
  success : report.err = .ok ↔ resolver.1 = .ok ∧ .ok ∈ connecting.outcomes ∧
    (connection.mode ≠ .notSecure → connecting.handshakes = [.ok])
  failure : report.err ≠ .ok →
    (resolver.1 ≠ .ok ∧ report.err = resolver.1) ∨
    (resolver = (.ok, []) ∧ report.err = hostUnreachable) ∨
    (resolver = (.ok, connecting.attempts) ∧ connecting.outcomes.getLast? = some report.err) ∨
    (connection.mode ≠ .notSecure ∧ .ok ∈ connecting.outcomes ∧
      connecting.handshakes = [report.err])

theorem not_enabled (still : connecting.timed.timeout.waiting = false)
    (idle : connecting.timed.phase = .idle) (queue : connecting.queue = [])
    (pending : connecting.pending = .nothing) (input : Input) : ¬ connecting.Enabled input := by
  intro enabled
  cases input with
  | resolve => cases pending.symm.trans enabled
  | expire => cases still.symm.trans enabled
  | complete err => cases idle.symm.trans enabled
  | handshake err => cases pending.symm.trans enabled
  | run => exact enabled queue

/-- An attempt has a job to run, or can complete. -/
theorem enabled_of_stage {onCancel : ErrorType → ConnectHandler ε} {marks : List Mark}
    {outcome : Option ErrorType}
    (stage : Stage .cancelSocket onCancel marks outcome connecting.timed connecting.queue)
    (busy : connecting.timed.phase ≠ .idle) : ∃ input, connecting.Enabled input := by
  by_cases empty : connecting.queue = []
  · refine ⟨.complete .ok, ?_⟩
    obtain ⟨connection, timed, queue, pending⟩ := connecting
    simp only at stage busy empty
    subst empty
    cases stage with
    | idle still => exact absurd rfl busy
    | waiting => rfl
    | expired => rfl
  · exact ⟨.run, empty⟩

theorem Course.posted (course : Course connection resolver connecting) :
    ((∃ input, connecting.Enabled input) ∧ connecting.posted = []) ∨
      ((∀ input, ¬ connecting.Enabled input) ∧
        ∃ report, connecting.posted = [report] ∧ Reports connection resolver connecting report) := by
  cases course with
  | resolving still => exact .inl ⟨⟨.resolve, rfl⟩, rfl⟩
  | connecting resolved failures each stage busy =>
      exact .inl ⟨enabled_of_stage stage busy, rfl⟩
  | handshaking still => exact .inl ⟨⟨.handshake .ok, rfl⟩, rfl⟩
  | unresolved still failed =>
      refine .inr ⟨not_enabled still rfl rfl rfl, _, rfl, ?_, ?_, fun _ => .inl ⟨failed, rfl⟩⟩
      · exact ⟨fun given => (by cases given), fun fine => absurd fine failed⟩
      · exact ⟨fun fine => absurd fine failed, fun fine => fine.1⟩
  | unreachable still resolved =>
      refine .inr ⟨not_enabled still rfl rfl rfl, _, rfl, ?_, ?_, fun _ => .inr (.inl ⟨resolved, rfl⟩)⟩
      · decide
      · exact ⟨fun fine => (by cases fine), fun fine => absurd fine.2.1 List.not_mem_nil⟩
  | @refused timeout tried next failed err still resolved failures each last =>
      refine .inr ⟨not_enabled still rfl rfl rfl, _, rfl, ?_, ?_, fun _ => ?_⟩
      · exact ⟨fun given => (by cases given), fun fine => absurd fine last⟩
      · refine ⟨fun fine => absurd fine last, fun fine => ?_⟩
        rcases List.mem_append.mp fine.2.1 with old | new
        · exact absurd old failures
        · exact (List.mem_singleton.mp new).symm
      · exact .inr (.inr (.inl ⟨resolved, List.getLast?_concat⟩))
  | @connected timeout tried next failed still resolved failures each plain =>
      refine .inr ⟨not_enabled still rfl rfl rfl, _, rfl, by decide, ?_, fun wrong => absurd rfl wrong⟩
      refine iff_of_true rfl ⟨by rw [resolved], ?_, fun secure => absurd plain secure⟩
      exact List.mem_append_right _ List.mem_cons_self
  | @handshaken timeout tried next failed err still resolved failures each secure =>
      have reached : ErrorType.ok ∈ failed ++ [.ok] := List.mem_append_right _ List.mem_cons_self
      refine .inr ⟨not_enabled still rfl rfl rfl, _, rfl, decide_eq_true_iff, ?_, fun _ => ?_⟩
      · constructor
        · intro fine
          exact ⟨by rw [resolved], reached, fun _ => congrArg (fun err => [err]) fine⟩
        · intro fine
          exact List.singleton_inj.mp (fine.2.2 secure)
      · exact .inr (.inr (.inr ⟨secure, reached, rfl⟩))

theorem Course.ordered (course : Course connection resolver connecting) :
    connecting.attempts <+: resolver.2 ∧
      connecting.outcomes.length ≤ connecting.attempts.length ∧
      .ok ∉ connecting.outcomes.dropLast ∧
      (.ok ∈ connecting.outcomes → connecting.attempts.length = connecting.outcomes.length) := by
  have ended {tried next : List ε} {failed : List ErrorType} {err : ErrorType}
      (resolved : resolver = (.ok, tried ++ next)) (failures : .ok ∉ failed)
      (each : tried.length = failed.length + 1) :
      tried <+: resolver.2 ∧ (failed ++ [err]).length ≤ tried.length ∧
        .ok ∉ (failed ++ [err]).dropLast ∧
        (.ok ∈ failed ++ [err] → tried.length = (failed ++ [err]).length) := by
    rw [resolved, List.dropLast_concat, List.length_append, List.length_singleton, each]
    exact ⟨List.prefix_append tried next, Nat.le_refl _, failures, fun _ => rfl⟩
  cases course with
  | resolving | unresolved | unreachable =>
      exact ⟨List.nil_prefix, Nat.le_refl _, List.not_mem_nil, fun _ => rfl⟩
  | @connecting timed queue tried next failed marks outcome resolved failures each =>
      rw [resolved]
      refine ⟨List.prefix_append tried next, Nat.le_of_succ_le (Nat.le_of_eq each.symm), ?_,
        fun reached => absurd reached failures⟩
      exact fun member => failures (List.dropLast_subset failed member)
  | refused still resolved failures each =>
      exact @ended _ [] _ _ (by rw [resolved, List.append_nil]) failures each
  | handshaking still resolved failures each => exact ended resolved failures each
  | connected still resolved failures each => exact ended resolved failures each
  | handshaken still resolved failures each => exact ended resolved failures each

instance (connecting : Connecting ε) : DecidablePred connecting.Enabled
  | .resolve => inferInstanceAs (Decidable (connecting.pending = .resolve))
  | .expire => inferInstanceAs (Decidable (connecting.timed.timeout.waiting = true))
  | .complete _ => inferInstanceAs (Decidable (connecting.timed.phase = .operating))
  | .handshake _ => inferInstanceAs (Decidable (connecting.pending = .handshake))
  | .run => inferInstanceAs (Decidable (connecting.queue ≠ []))

instance [DecidableEq ε] (connecting : Connecting ε) : DecidablePred connecting.Timely
  | .run => inferInstanceAs (Decidable (Unraced connecting.queue))
  | .resolve | .expire | .complete _ | .handshake _ => .isTrue trivial

end Connecting

/-! ## The connect of one call

`asyncConnect` has the course of a connect as an argument.  A connect that goes so
ends with what it returns. -/

theorem pHandleConnect_after {handshake first : ErrorType} {connection : Connection}
    {failed : List ErrorType} (wrong : first ≠ .ok) (failures : .ok ∉ failed) (err : ErrorType)
    (rest : List ErrorType) :
    pHandleConnect handshake connection first (failed ++ err :: rest) =
      pHandleConnect handshake connection err rest := by
  have skip {first : ErrorType} (wrong : first ≠ .ok) (next : ErrorType) (rest : List ErrorType) :
      pHandleConnect handshake connection first (next :: rest) =
        pHandleConnect handshake connection next rest := by
    cases first with
    | ok => exact absurd rfl wrong
    | _ => rfl
  induction failed generalizing first with
  | nil => exact skip wrong err rest
  | cons next failed ih =>
      rw [List.mem_cons, not_or] at failures
      rw [List.cons_append, skip wrong]
      exact ih (Ne.symm failures.1) failures.2

theorem asyncConnect_after {connection : Connection} {course : ConnectCourse}
    {failed rest : List ErrorType} {err : ErrorType} (resolved : course.resolved = .ok)
    (failures : .ok ∉ failed) (endpoints : course.endpoints = failed ++ err :: rest) :
    connection.asyncConnect course = pHandleConnect course.handshake connection err rest := by
  rw [asyncConnect, if_neg (not_not.mpr resolved), endpoints]
  cases failed with
  | nil => rfl
  | cons first failed =>
      rw [List.mem_cons, not_or] at failures
      exact pHandleConnect_after (Ne.symm failures.1) failures.2 err rest

/-- The course a connect went, with any outcome for the endpoints that were not
tried. -/
structure Connecting.Went {ε : Type} (course : ConnectCourse) (resolver : ErrorType × List ε)
    (connecting : Connecting ε) : Prop where
  resolved : course.resolved = resolver.1
  endpoints : course.endpoints.length = resolver.2.length
  outcomes : connecting.outcomes <+: course.endpoints
  handshake : ∀ err ∈ connecting.handshakes, err = course.handshake

theorem Connecting.Course.refines {ε : Type} {connection : Connection}
    {resolver : ErrorType × List ε} {connecting : Connecting ε} {made : ConnectCourse}
    {report : Report} (course : Course connection resolver connecting)
    (went : Went made resolver connecting) (posted : connecting.posted = [report]) :
    connection.asyncConnect made = .ok (connecting.connection, report.err) := by
  obtain ⟨resolved, endpoints, outcomes, handshake⟩ := went
  cases course with
  | resolving | connecting | handshaking => cases posted
  | unresolved still failed =>
      cases posted
      rw [asyncConnect, if_pos (resolved ▸ failed), resolved]
      rfl
  | unreachable still found =>
      cases posted
      rw [found] at resolved endpoints
      rw [asyncConnect, if_neg (not_not.mpr resolved), List.length_eq_zero_iff.mp endpoints]
      rfl
  | @refused timeout tried next failed err still found failures each last =>
      cases posted
      rw [found] at resolved endpoints
      obtain ⟨rest, same⟩ := outcomes
      have none : rest = [] := by
        have lengths := congrArg List.length same
        rw [endpoints, List.length_append, List.length_append, List.length_singleton, each] at lengths
        exact List.length_eq_zero_iff.mp (by omega)
      rw [none, List.append_nil] at same
      rw [asyncConnect_after resolved failures same.symm]
      cases err with
      | ok => exact absurd rfl last
      | _ => rfl
  | @connected timeout tried next failed still found failures each plain =>
      cases posted
      rw [found] at resolved
      obtain ⟨rest, same⟩ := outcomes
      rw [List.append_assoc] at same
      rw [asyncConnect_after resolved failures same.symm, Connection.pHandleConnect, if_pos plain]
      rfl
  | @handshaken timeout tried next failed err still found failures each secure =>
      cases posted
      rw [found] at resolved
      obtain ⟨rest, same⟩ := outcomes
      rw [List.append_assoc] at same
      rw [asyncConnect_after resolved failures same.symm, Connection.pHandleConnect, if_neg secure,
        pStartHandshake_ok secure, ← handshake err List.mem_cons_self]
      exact congrArg (fun err => Except.ok (_, err)) (connection.pHandleHandshake_err err)

end Marvin.Connection
