import Marvin.Connection.Timeout
import Marvin.Data.Tagged
import Marvin.Data.Transition

namespace Marvin.Connection

open Marvin.Data

/-! # A client of a timeout

A client that goes through rounds: it sets the timeout, starts an operation,
cancels the timeout when the operation completes, and starts the next round at
some time after its cancel handler was run.  The handlers of a round carry its
number, and a log records what happens to them.

`cancel_timeout` drops the expire handler and relies on the timer to abort the
wait.  A wait that has already succeeded cannot be aborted: its handler finds no
expire handler, returns, and the cancel handler is never run.
-/

inductive Handler (ρ : Type u) where
  | expire (round : Nat)
  | cancel (round : Nat) (result : ρ)
deriving DecidableEq, Repr

structure Client (ρ : Type u) where
  timed : Timed (Handler ρ)
  queue : List (Job (Handler ρ) ρ)
  round : Nat
  log : List (Nat × Mark)
deriving DecidableEq, Repr

namespace Client

variable {ρ : Type u}

inductive Input (ρ : Type u) where
  | start
  | expire
  | complete (result : ρ)
  | run
deriving DecidableEq, Repr

def Enabled (client : Client ρ) : Input ρ → Prop
  | .start => client.timed.phase = .idle
  | .expire => client.timed.timeout.waiting = true
  | .complete _ => client.timed.phase = .operating
  | .run => client.queue ≠ []

/-- Keeps the posted jobs of a change to the timed operation. -/
def post (client : Client ρ) (change : Timed (Handler ρ) × List (Job (Handler ρ) ρ)) : Client ρ :=
  { client with timed := change.1, queue := client.queue ++ change.2 }

def note (client : Client ρ) (round : Nat) (mark : Mark) : Client ρ :=
  { client with log := client.log ++ [(round, mark)] }

def runJob (client : Client ρ) : Job (Handler ρ) ρ → Except Fault (Client ρ)
  | .timer err => return client.post (← client.timed.handleTimer err)
  | .operation result =>
      return (client.post (← client.timed.handleOperation (.cancel client.round result))).note
        client.round .cancelled
  | .run (.expire round) => return client.note round .expired
  | .run (.cancel round _) =>
      return { client.note round .finished with
        timed := { client.timed with phase := .idle }, round := client.round + 1 }

def step (client : Client ρ) : Input ρ → Except Fault (Client ρ)
  | .start => return client.post (client.timed.begin (.expire client.round))
  | .expire => return client.post client.timed.expire
  | .complete result => return client.post (client.timed.complete result)
  | .run =>
      match client.queue with
      | [] => return client
      | job :: queue => { client with queue }.runJob job

/-- The timer has no wait pending at the start; its other members may hold
anything. -/
def Initial (client : Client ρ) : Prop :=
  client.timed.phase = .idle ∧ client.timed.timeout.waiting = false ∧ client.queue = [] ∧
    client.round = 0 ∧ client.log = []

def runs (ρ : Type u) : Transition (Client ρ) (Input ρ) :=
  .ofStep Initial Enabled step

/-- The completion handler of the operation is not run while the handler of a
successful wait is in the queue. -/
def Timely (client : Client ρ) : Input ρ → Prop
  | .run => Unraced client.queue
  | _ => True

/-! ## The invariant -/

structure Invariant (client : Client ρ) : Prop where
  current : ∃ outcome, Stage (.expire client.round) (.cancel client.round)
    (tagged client.round client.log) outcome client.timed client.queue
  past : ∀ round < client.round, ∃ marks ∈ endings, tagged round client.log = marks ++ [.finished]
  future : ∀ round, client.round < round → tagged round client.log = []

variable {client next : Client ρ}

theorem initial_invariant (start : client.Initial) : client.Invariant := by
  obtain ⟨⟨timeout, phase⟩, queue, round, log⟩ := client
  obtain ⟨rfl, still, rfl, rfl, rfl⟩ := start
  exact ⟨⟨none, .idle still⟩, fun round early => absurd early (Nat.not_lt_zero round),
    fun _ _ => rfl⟩

theorem Invariant.moved (invariant : client.Invariant) {mark : Option Mark}
    (round : next.round = client.round)
    (log : next.log = client.log ++ (mark.map (Prod.mk client.round)).toList)
    {outcome : Option ρ}
    (stage : Stage (.expire client.round) (.cancel client.round)
      (tagged client.round client.log ++ mark.toList) outcome next.timed next.queue) :
    next.Invariant := by
  have own : tagged client.round next.log = tagged client.round client.log ++ mark.toList := by
    rw [log]
    cases mark with
    | none => simp
    | some mark => simp
  have others (other : Nat) (different : other ≠ client.round) :
      tagged other next.log = tagged other client.log := by
    rw [log]
    cases mark with
    | none => simp
    | some mark => exact tagged_concat_ne (Ne.symm different) mark client.log
  refine ⟨⟨outcome, ?_⟩, fun past early => ?_, fun future late => ?_⟩
  · rw [round, own]
    exact stage
  · rw [round] at early
    rw [others past (Nat.ne_of_lt early)]
    exact invariant.past past early
  · rw [round] at late
    rw [others future (Nat.ne_of_gt late)]
    exact invariant.future future late

theorem Invariant.finished (invariant : client.Invariant)
    (ending : tagged client.round client.log ∈ endings) (round : next.round = client.round + 1)
    (log : next.log = client.log ++ [(client.round, .finished)]) (queue : next.queue = [])
    (stage : Stage (.expire next.round) (.cancel next.round) [] none next.timed []) :
    next.Invariant := by
  refine ⟨⟨none, ?_⟩, fun past early => ?_, fun future late => ?_⟩
  · have fresh : tagged next.round next.log = [] := by
      rw [round, log, tagged_concat_ne (Nat.ne_of_lt (Nat.lt_succ_self _)),
        invariant.future _ (Nat.lt_succ_self _)]
    rw [fresh, queue]
    exact stage
  · rw [round] at early
    rw [log]
    rcases Nat.lt_succ_iff_lt_or_eq.mp early with before | rfl
    · rw [tagged_concat_ne (Nat.ne_of_gt before)]
      exact invariant.past past before
    · exact ⟨_, ending, tagged_concat_self _ _ _⟩
  · rw [round] at late
    have later : client.round < future := Nat.lt_of_succ_lt late
    rw [log, tagged_concat_ne (Nat.ne_of_lt later), invariant.future future later]

theorem Invariant.runJob (invariant : client.Invariant) {job : Job (Handler ρ) ρ}
    {queue : List (Job (Handler ρ) ρ)} (first : client.queue = job :: queue)
    (timely : client.Timely .run) :
    ∃ next, { client with queue }.runJob job = .ok next ∧ next.Invariant := by
  obtain ⟨outcome, stage⟩ := invariant.current
  rw [first] at stage
  cases job with
  | timer err =>
      obtain ⟨after, posted, handled, later⟩ := stage.timer
      let next := { client with queue }.post (after, posted)
      refine ⟨next, by simp only [Client.runJob, handled]; rfl, ?_⟩
      exact @Invariant.moved _ _ next invariant none rfl (by simp [next, post]) outcome
        (by simpa [next, post] using later)
  | operation result =>
      obtain ⟨_, after, posted, handled, later⟩ := stage.operation (by
        simpa only [Timely, first, Unraced] using timely)
      let next := ({ client with queue }.post (after, posted)).note client.round .cancelled
      refine ⟨next, by simp only [Client.runJob, handled]; rfl, ?_⟩
      exact @Invariant.moved _ _ next invariant (some .cancelled) rfl rfl _ later
  | run handler =>
      rcases stage.run with ⟨rfl, later⟩ | ⟨result, rfl, _, rfl, quiet, ending⟩
      · let next := { client with queue }.note client.round .expired
        exact ⟨next, rfl, @Invariant.moved _ _ next invariant (some .expired) rfl rfl _ later⟩
      · exact ⟨_, rfl, @Invariant.finished _ client _ invariant ending rfl rfl rfl (by
          simp only [quiet]
          exact .idle rfl)⟩

theorem Invariant.step (invariant : client.Invariant) {input : Input ρ}
    (enabled : client.Enabled input) (timely : client.Timely input) :
    ∃ next, client.step input = .ok next ∧ next.Invariant := by
  obtain ⟨outcome, stage⟩ := invariant.current
  cases input with
  | start =>
      let next := client.post (client.timed.begin (.expire client.round))
      obtain ⟨unmarked, empty, later⟩ := stage.begin enabled
      refine ⟨next, rfl, @Invariant.moved _ _ next invariant none rfl (by simp [next, post])
        none ?_⟩
      simpa [next, post, empty, unmarked] using later
  | expire =>
      let next := client.post client.timed.expire
      refine ⟨next, rfl, @Invariant.moved _ _ next invariant none rfl (by simp [next, post])
        outcome ?_⟩
      simpa [next, post] using stage.expire enabled
  | complete result =>
      let next := client.post (client.timed.complete result)
      refine ⟨next, rfl, @Invariant.moved _ _ next invariant none rfl (by simp [next, post])
        (some result) ?_⟩
      simpa [next, post] using (stage.complete enabled result).2
  | run =>
      cases first : client.queue with
      | nil => exact absurd first enabled
      | cons job queue =>
          obtain ⟨next, ran, kept⟩ := invariant.runJob first timely
          exact ⟨next, by simpa only [Client.step, first] using ran, kept⟩

theorem reached_invariant (reached : (runs ρ).Reaches Timely client) : client.Invariant :=
  Transition.ofStep_invariant initial_invariant
    (fun invariant timely enabled => invariant.step enabled timely) reached

theorem Invariant.tagged_cases (invariant : client.Invariant) (round : Nat) :
    (tagged round client.log ∈ [] :: [.expired] :: endings ∧
        (client.queue = [] → .cancelled ∉ tagged round client.log)) ∨
      ∃ marks ∈ endings, tagged round client.log = marks ++ [.finished] := by
  rcases Nat.lt_trichotomy round client.round with early | rfl | late
  · exact .inr (invariant.past round early)
  · obtain ⟨outcome, stage⟩ := invariant.current
    refine .inl ⟨stage.marks_mem, fun empty => ?_⟩
    rw [empty] at stage
    exact stage.not_cancelled
  · rw [invariant.future round late]
    exact .inl ⟨List.mem_cons_self, fun _ => List.not_mem_nil⟩

/-- In a run in which no completion is handled while a successful wait is queued,
no assertion fails, the expire handler of a round is run at most once and not
after its cancel handler, and once the queue is empty the cancel handler of a
round whose timeout was cancelled has been run exactly once. -/
theorem timely_runs_complete (reached : (runs ρ).Reaches Timely client) :
    (∀ input, client.Enabled input → client.Timely input → ∃ next, client.step input = .ok next) ∧
      ∀ round, client.log.count (round, .expired) ≤ 1 ∧
        ¬ [(round, .finished), (round, .expired)].Sublist client.log ∧
        (client.queue = [] → (round, .cancelled) ∈ client.log →
          client.log.count (round, .finished) = 1) := by
  have invariant := reached_invariant reached
  refine ⟨fun input enabled timely => ?_, fun round => ?_⟩
  · obtain ⟨next, stepped, _⟩ := invariant.step enabled timely
    exact ⟨next, stepped⟩
  · have unfinished : ∀ marks ∈ [] :: [.expired] :: endings, marks.count .expired ≤ 1 ∧
        ¬ [Mark.finished, .expired].Sublist marks := by decide
    have finished : ∀ marks ∈ endings, (marks ++ [Mark.finished]).count .expired ≤ 1 ∧
        ¬ [Mark.finished, .expired].Sublist (marks ++ [.finished]) ∧
        (marks ++ [Mark.finished]).count .finished = 1 := by decide
    rw [← count_tagged, ← count_tagged]
    rcases invariant.tagged_cases round with ⟨known, idle⟩ | ⟨marks, known, logged⟩
    · obtain ⟨once, ordered⟩ := unfinished _ known
      refine ⟨once, fun swapped => ordered (sublist_tagged swapped), fun empty member => ?_⟩
      exact absurd (mem_tagged.mpr member) (idle empty)
    · obtain ⟨once, ordered, ran⟩ := finished marks known
      rw [logged]
      exact ⟨once, fun swapped => ordered (logged ▸ sublist_tagged swapped), fun _ _ => ran⟩

def new : Client Unit := ⟨⟨.quiet, .idle⟩, [], 0, []⟩

instance (client : Client ρ) : DecidablePred client.Enabled
  | .start => inferInstanceAs (Decidable (client.timed.phase = .idle))
  | .expire => inferInstanceAs (Decidable (client.timed.timeout.waiting = true))
  | .complete _ => inferInstanceAs (Decidable (client.timed.phase = .operating))
  | .run => inferInstanceAs (Decidable (client.queue ≠ []))

instance [DecidableEq ρ] (client : Client ρ) : DecidablePred client.Timely
  | .run => inferInstanceAs (Decidable (Unraced client.queue))
  | .start | .expire | .complete _ => .isTrue trivial

theorem read_in_time_completes :
    ∃ client : Client Unit, (runs Unit).Reaches Timely client ∧ client.queue = [] ∧
      (0, .cancelled) ∈ client.log ∧ client.log.count (0, .finished) = 1 := by
  have initial : (runs Unit).Reaches Timely new := .initial ⟨rfl, rfl, rfl, rfl, rfl⟩
  have reached := Transition.ofStep_follow initial (show
    [.start, .complete (), .run, .run, .run].foldlM (Transition.attempt Timely Enabled step) new =
      some _ from rfl)
  exact ⟨_, reached, rfl, by decide, ((timely_runs_complete reached).2 0).2.2 rfl (by decide)⟩

/-- The wait succeeds between the completion and its handler: nothing is left to
run the cancel handler. -/
theorem late_expiry_loses_cancel_handler :
    ∃ client : Client Unit, (runs Unit).Reaches Transition.unguarded client ∧ client.queue = [] ∧
      (0, .cancelled) ∈ client.log ∧ client.log.count (0, .finished) = 0 := by
  have initial : (runs Unit).Reaches Transition.unguarded new := .initial ⟨rfl, rfl, rfl, rfl, rfl⟩
  have reached := Transition.ofStep_follow initial (show
    [.start, .complete (), .expire, .run, .run].foldlM
      (Transition.attempt Transition.unguarded Enabled step) new = some _ from rfl)
  exact ⟨_, reached, rfl, by decide, by decide⟩

end Client

end Marvin.Connection
