import Marvin.Fault

namespace Marvin.Connection

/-! # Timeouts

`marvin/connection/timeout.cpp` and the way `Connection::async_read` uses it.
Everything runs on one thread that takes jobs from a first-in-first-out queue,
so a function is described by the state it leaves and the jobs it posts.
-/

/-- The jobs in the queue of the io_service: a completed wait of the timer, the
completion of the guarded operation, and a posted handler. -/
inductive Job (α : Type u) (ρ : Type v) where
  | timer (err : ErrorType)
  | operation (result : ρ)
  | run (handler : α)
deriving DecidableEq, Repr

/-- A completion at the head of the queue has no successful wait behind it. -/
def Unraced {α : Type u} {ρ : Type v} : List (Job α ρ) → Prop
  | .operation _ :: queue => .timer .ok ∉ queue
  | _ => True

instance {α : Type u} {ρ : Type v} [DecidableEq α] [DecidableEq ρ] :
    DecidablePred (@Unraced α ρ)
  | .operation _ :: queue => inferInstanceAs (Decidable (.timer .ok ∉ queue))
  | [] | .timer _ :: _ | .run _ :: _ => .isTrue trivial

/-- `waiting` says that `m_timer` has a wait pending. -/
structure Timeout (α : Type u) where
  cancelHandler : Option α
  expireHandler : Option α
  active : Bool
  waiting : Bool
deriving DecidableEq, Repr

namespace Timeout

variable {α : Type u} {ρ : Type v}

/-- `deadline_timer::expires_from_now` aborts a pending wait. -/
def expiresFromNow (timeout : Timeout α) : Timeout α × List (Job α ρ) :=
  ({ timeout with waiting := false }, if timeout.waiting then [.timer .operationAborted] else [])

def timerCancel (timeout : Timeout α) : Timeout α × List (Job α ρ) :=
  ({ timeout with waiting := false }, if timeout.waiting then [.timer .operationAborted] else [])

/-- The time of a pending wait is reached. -/
def timerExpire (timeout : Timeout α) : Timeout α × List (Job α ρ) :=
  ({ timeout with waiting := false }, [.timer .ok])

def cancelTimeout (timeout : Timeout α) (handler : α) :
    Except Fault (Timeout α × List (Job α ρ)) := do
  let timeout := { timeout with cancelHandler := some handler }
  let (timeout, posted) := timeout.expiresFromNow
  if !timeout.active then
    if timeout.expireHandler.isSome then throw .expireHandlerPresent
    return ({ timeout with cancelHandler := none }, posted ++ [.run handler])
  else
    let timeout := { timeout with expireHandler := none }
    let (timeout, aborted) := timeout.timerCancel
    let (timeout, again) := timeout.expiresFromNow
    return (timeout, posted ++ aborted ++ again)

def setTimeout (timeout : Timeout α) (handler : α) : Timeout α × List (Job α ρ) :=
  let timeout := { timeout with
    expireHandler := some handler, cancelHandler := none, active := true }
  let (timeout, posted) := timeout.expiresFromNow
  ({ timeout with waiting := true }, posted)

def pHandleTimeout (timeout : Timeout α) (err : ErrorType) :
    Except Fault (Timeout α × List (Job α ρ)) := do
  if !timeout.active then throw .timeoutNotActive
  match err with
  | .operationAborted =>
      match timeout.cancelHandler with
      | none => throw .noCancelHandler
      | some handler =>
          return ({ timeout with active := false, cancelHandler := none }, [.run handler])
  | .ok =>
      match timeout.expireHandler with
      | none => return (timeout, [])
      | some handler =>
          return ({ timeout with active := false, expireHandler := none }, [.run handler])
  | _ => throw .timerFailed

def armed (handler : α) (waiting : Bool) : Timeout α := ⟨none, some handler, true, waiting⟩

def cancelling (handler : α) : Timeout α := ⟨some handler, none, true, false⟩

def quiet : Timeout α := ⟨none, none, false, false⟩

end Timeout

/-! ## A timed operation -/

/-- Where the user of a timeout is: between operations, waiting for one, with its
completion queued, and between `cancel_timeout` and the cancel handler. -/
inductive Phase where
  | idle
  | operating
  | completed
  | cancelled
deriving DecidableEq, Repr

structure Timed (α : Type u) where
  timeout : Timeout α
  phase : Phase
deriving DecidableEq, Repr

namespace Timed

variable {α : Type u} {ρ : Type v}

def begin (timed : Timed α) (handler : α) : Timed α × List (Job α ρ) :=
  let (timeout, posted) := timed.timeout.setTimeout handler
  (⟨timeout, .operating⟩, posted)

def expire (timed : Timed α) : Timed α × List (Job α ρ) :=
  let (timeout, posted) := timed.timeout.timerExpire
  ({ timed with timeout }, posted)

def complete (timed : Timed α) (result : ρ) : Timed α × List (Job α ρ) :=
  ({ timed with phase := .completed }, [.operation result])

def handleTimer (timed : Timed α) (err : ErrorType) : Except Fault (Timed α × List (Job α ρ)) := do
  let (timeout, posted) ← timed.timeout.pHandleTimeout err
  return ({ timed with timeout }, posted)

def handleOperation (timed : Timed α) (handler : α) :
    Except Fault (Timed α × List (Job α ρ)) := do
  let (timeout, posted) ← timed.timeout.cancelTimeout handler
  return (⟨timeout, .cancelled⟩, posted)

end Timed

/-! ## Stages

In every order of events, the timeout, the phase and the queued jobs of a timed
operation are in one of a few combinations, as long as the completion is never
handled with a successful wait behind it in the queue. -/

/-- What has happened to an operation's handlers: the expire handler was run,
`cancel_timeout` was called, the cancel handler was run. -/
inductive Mark where
  | expired
  | cancelled
  | finished
deriving DecidableEq, Repr

def endings : List (List Mark) :=
  [[.cancelled], [.expired, .cancelled], [.cancelled, .expired]]

section

variable {α : Type u} {ρ : Type v} (onExpire : α) (onCancel : ρ → α)

inductive Stage : List Mark → Option ρ → Timed α → List (Job α ρ) → Prop where
  | idle {timeout : Timeout α} (still : timeout.waiting = false) :
      Stage [] none ⟨timeout, .idle⟩ []
  | waiting : Stage [] none ⟨.armed onExpire true, .operating⟩ []
  | fired : Stage [] none ⟨.armed onExpire false, .operating⟩ [.timer .ok]
  | expiring : Stage [] none ⟨.quiet, .operating⟩ [.run onExpire]
  | expired : Stage [.expired] none ⟨.quiet, .operating⟩ []
  | completed (result : ρ) :
      Stage [] (some result) ⟨.armed onExpire true, .completed⟩ [.operation result]
  | firedFirst (result : ρ) :
      Stage [] (some result) ⟨.armed onExpire false, .completed⟩ [.timer .ok, .operation result]
  | firedLast (result : ρ) :
      Stage [] (some result) ⟨.armed onExpire false, .completed⟩ [.operation result, .timer .ok]
  | expiringFirst (result : ρ) :
      Stage [] (some result) ⟨.quiet, .completed⟩ [.run onExpire, .operation result]
  | expiringLast (result : ρ) :
      Stage [] (some result) ⟨.quiet, .completed⟩ [.operation result, .run onExpire]
  | expiredFirst (result : ρ) :
      Stage [.expired] (some result) ⟨.quiet, .completed⟩ [.operation result]
  | cancelling (result : ρ) :
      Stage [.cancelled] (some result) ⟨.cancelling (onCancel result), .cancelled⟩
        [.timer .operationAborted]
  | expiringFinishing (result : ρ) :
      Stage [.cancelled] (some result) ⟨.quiet, .cancelled⟩ [.run onExpire, .run (onCancel result)]
  | finishing {marks : List Mark} (result : ρ) (ending : marks ∈ endings) :
      Stage marks (some result) ⟨.quiet, .cancelled⟩ [.run (onCancel result)]

end

namespace Stage

variable {α : Type u} {ρ : Type v} {onExpire handler : α} {onCancel : ρ → α} {marks : List Mark}
  {outcome : Option ρ} {timed : Timed α} {jobs : List (Job α ρ)} {result : ρ} {err : ErrorType}

theorem begin (stage : Stage onExpire onCancel marks outcome timed jobs) (idle : timed.phase = .idle) :
    marks = [] ∧ jobs = [] ∧
      Stage onExpire onCancel [] none (timed.begin onExpire : Timed α × List (Job α ρ)).1
        (timed.begin onExpire).2 := by
  cases stage with
  | idle still =>
      refine ⟨rfl, rfl, ?_⟩
      simp only [Timed.begin, Timeout.setTimeout, Timeout.expiresFromNow, still]
      exact .waiting
  | _ => cases idle

theorem expire (stage : Stage onExpire onCancel marks outcome timed jobs)
    (pending : timed.timeout.waiting = true) :
    Stage onExpire onCancel marks outcome (timed.expire : Timed α × List (Job α ρ)).1
      (jobs ++ timed.expire.2) := by
  cases stage with
  | waiting => exact .fired
  | completed result => exact .firedLast result
  | idle still => simp [still] at pending
  | _ => cases pending

theorem complete (stage : Stage onExpire onCancel marks outcome timed jobs)
    (operating : timed.phase = .operating) (result : ρ) :
    outcome = none ∧ Stage onExpire onCancel marks (some result) (timed.complete result).1
      (jobs ++ (timed.complete result).2) := by
  cases stage with
  | waiting => exact ⟨rfl, .completed result⟩
  | fired => exact ⟨rfl, .firedFirst result⟩
  | expiring => exact ⟨rfl, .expiringFirst result⟩
  | expired => exact ⟨rfl, .expiredFirst result⟩
  | _ => cases operating

theorem timer (stage : Stage onExpire onCancel marks outcome timed (.timer err :: jobs)) :
    ∃ after posted, timed.handleTimer err = .ok (after, posted) ∧
      Stage onExpire onCancel marks outcome after (jobs ++ posted) := by
  cases stage with
  | fired => exact ⟨_, _, rfl, .expiring⟩
  | firedFirst result => exact ⟨_, _, rfl, .expiringLast result⟩
  | cancelling result => exact ⟨_, _, rfl, .finishing result (by decide)⟩

theorem operation (stage : Stage onExpire onCancel marks outcome timed (.operation result :: jobs))
    (timely : .timer .ok ∉ jobs) :
    outcome = some result ∧
      ∃ after posted, timed.handleOperation (onCancel result) = .ok (after, posted) ∧
        Stage onExpire onCancel (marks ++ [.cancelled]) (some result) after (jobs ++ posted) := by
  cases stage with
  | completed => exact ⟨rfl, _, _, rfl, .cancelling result⟩
  | firedLast => simp at timely
  | expiringLast =>
      exact ⟨rfl, ⟨.quiet, .cancelled⟩, [.run (onCancel result)], rfl,
        .expiringFinishing result⟩
  | expiredFirst =>
      exact ⟨rfl, ⟨.quiet, .cancelled⟩, [.run (onCancel result)], rfl,
        .finishing result (by decide)⟩

/-- The completion handler, run with a successful wait behind it: that wait finds
no expire handler, and the cancel handler stays where it is. -/
theorem late (stage : Stage onExpire onCancel marks outcome timed (.operation result :: jobs))
    (behind : .timer .ok ∈ jobs) :
    jobs = [.timer .ok] ∧
      timed.handleOperation (onCancel result) =
        .ok ((⟨.cancelling (onCancel result), .cancelled⟩, []) : Timed α × List (Job α ρ)) := by
  cases stage with
  | firedLast => exact ⟨rfl, rfl⟩
  | completed | expiringLast | expiredFirst => simp at behind

theorem run (stage : Stage onExpire onCancel marks outcome timed (.run handler :: jobs)) :
    (handler = onExpire ∧ Stage onExpire onCancel (marks ++ [.expired]) outcome timed jobs) ∨
      ∃ result, handler = onCancel result ∧ outcome = some result ∧ jobs = [] ∧
        timed = ⟨.quiet, .cancelled⟩ ∧ marks ∈ endings := by
  cases stage with
  | expiring => exact .inl ⟨rfl, .expired⟩
  | expiringFirst result => exact .inl ⟨rfl, .expiredFirst result⟩
  | expiringFinishing result => exact .inl ⟨rfl, .finishing result (by decide)⟩
  | finishing result ending => exact .inr ⟨result, rfl, rfl, rfl, rfl, ending⟩

theorem marks_mem (stage : Stage onExpire onCancel marks outcome timed jobs) :
    marks ∈ [] :: [.expired] :: endings := by
  cases stage with
  | finishing result ending => exact List.mem_cons_of_mem _ (List.mem_cons_of_mem _ ending)
  | _ => decide

theorem not_cancelled (stage : Stage onExpire onCancel marks outcome timed []) :
    .cancelled ∉ marks := by
  cases stage with
  | _ => decide

theorem outcome_none (stage : Stage onExpire onCancel marks outcome timed []) : outcome = none := by
  cases stage with
  | _ => rfl

end Stage

end Marvin.Connection
