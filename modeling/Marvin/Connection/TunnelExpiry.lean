import Marvin.Connection.TunnelHandler
import Marvin.Data.Tagged

namespace Marvin.Connection

open Marvin.Data Marvin.Buffer

/-! # Read timeouts in a tunnel

The expire handler of a read cancels the whole socket, and with it a write that
the other half has outstanding there.  As long as no expire handler meets such a
write, the halves do not interfere: each goes its way through the jobs it has in
the shared queue, and everything a half receives is sent.
-/

namespace HalfTunnel

/-- The bytes of a completed read, which are at the front of the buffer. -/
def inTransit (half : HalfTunnel) : Option ReadResult → Bytes
  | none => []
  | some result => if result.err = .ok then peek half.buffer.memory result.bytesTransfered else []

def Still (half : HalfTunnel) : Prop :=
  half.timed.phase = .idle ∧ half.timed.timeout.waiting = false

/-- Nothing is left to be sent, unless the peer of the write end caused an error. -/
def Settled (half : HalfTunnel) : Prop :=
  match half.delivery with
  | .fine => half.received = half.sent
  | .peerError _ => half.sent <+: half.received
  | .aborted => False

end HalfTunnel

/-- Where the bytes of a half are, by the jobs it has in the queue. -/
inductive Flow (half : HalfTunnel) (jobs : List TunnelJob) : Prop where
  | reading {marks : List Mark} {outcome : Option ReadResult}
      {reads : List (Job ReadHandler ReadResult)} (queued : jobs = reads.map .read)
      (stage : Stage .cancelSocket .postRead marks outcome half.timed reads)
      (unwritten : half.writing = none) (fine : half.delivery = .fine)
      (carries : half.received = half.sent ++ half.inTransit outcome)
  | posted {result : ReadResult} (queued : jobs = [.setSize result]) (still : half.Still)
      (unwritten : half.writing = none) (fine : half.delivery = .fine)
      (carries : half.received = half.sent ++ half.inTransit (some result))
  | handed {result : ReadResult} (queued : jobs = [.handleRead result]) (still : half.Still)
      (unwritten : half.writing = none) (fine : half.delivery = .fine)
      (carries : half.received = half.sent ++ half.inTransit (some result))
      (sized : half.buffer.mLength = result.bytesTransfered)
  | writing {rest : Bytes} (queued : jobs = []) (still : half.Still)
      (going : half.writing = some rest) (fine : half.delivery = .fine)
      (carries : half.received = half.sent ++ rest)
  | written {err : ErrorType} (queued : jobs = [.written err] ∨ jobs = [.handleWrite err])
      (still : half.Still) (unwritten : half.writing = none) (settled : half.Settled)
      (intact : err = .ok → half.delivery = .fine)
  | ended (queued : jobs = []) (still : half.Still) (unwritten : half.writing = none)
      (settled : half.Settled)

namespace Flow

variable {half : HalfTunnel} {jobs : List TunnelJob} {result : ReadResult} {err : ErrorType}

theorem read {job : Job ReadHandler ReadResult} (flow : Flow half (.read job :: jobs)) :
    ∃ marks outcome rest, jobs = rest.map .read ∧
      Stage .cancelSocket .postRead marks outcome half.timed (job :: rest) ∧
      half.writing = none ∧ half.delivery = .fine ∧
      half.received = half.sent ++ half.inTransit outcome := by
  cases flow with
  | reading queued stage unwritten fine carries =>
      obtain ⟨first, rest, rfl, same, rfl⟩ := List.map_eq_cons_iff.mp queued.symm
      cases same
      exact ⟨_, _, rest, rfl, stage, unwritten, fine, carries⟩
  | posted queued | handed queued | ended queued => cases queued
  | writing queued => cases queued
  | written queued => rcases queued with queued | queued <;> cases queued

theorem busy (flow : Flow half jobs) (moving : ¬ half.Still) :
    ∃ marks outcome reads, jobs = reads.map .read ∧
      Stage .cancelSocket .postRead marks outcome half.timed reads ∧
      half.writing = none ∧ half.delivery = .fine ∧
      half.received = half.sent ++ half.inTransit outcome := by
  cases flow with
  | reading queued stage unwritten fine carries =>
      exact ⟨_, _, _, queued, stage, unwritten, fine, carries⟩
  | posted _ still | handed _ still | ended _ still => exact absurd still moving
  | writing _ still => exact absurd still moving
  | written _ still => exact absurd still moving

theorem startRead (still : half.Still) (unwritten : half.writing = none)
    (fine : half.delivery = .fine) (settled : half.Settled) :
    Flow half.pStartRead.1 half.pStartRead.2 := by
  have resting : Stage .cancelSocket .postRead [] none half.timed [] := by
    obtain ⟨⟨timeout, phase⟩, _⟩ := half
    obtain ⟨rfl, off⟩ := still
    exact .idle off
  obtain ⟨_, _, stage⟩ := resting.begin still.1
  refine .reading rfl stage unwritten fine ?_
  simp only [HalfTunnel.Settled, fine] at settled
  exact settled.trans (List.append_nil _).symm

theorem moving_of_operating (operating : half.timed.phase = .operating) : ¬ half.Still := by
  intro still
  rw [still.1] at operating
  cases operating

theorem receive (flow : Flow half jobs) (operating : half.timed.phase = .operating) (data : Bytes) :
    Flow (half.receive data).1 (jobs ++ (half.receive data).2) := by
  obtain ⟨marks, outcome, reads, rfl, stage, unwritten, fine, carries⟩ :=
    flow.busy (moving_of_operating operating)
  obtain ⟨rfl, later⟩ := stage.complete operating ⟨.ok, data.length⟩
  refine .reading (List.map_append).symm later unwritten fine ?_
  have before : half.received = half.sent := by
    rw [carries]
    exact List.append_nil _
  have transit : (half.receive data).1.inTransit (some ⟨.ok, data.length⟩) = data :=
    half.buffer.peek_receive data
  rw [transit]
  exact congrArg (· ++ data) before

theorem readFails (flow : Flow half jobs) (operating : half.timed.phase = .operating)
    (failed : err ≠ .ok) : Flow (half.readFails err).1 (jobs ++ (half.readFails err).2) := by
  obtain ⟨marks, outcome, reads, rfl, stage, unwritten, fine, carries⟩ :=
    flow.busy (moving_of_operating operating)
  obtain ⟨rfl, later⟩ := stage.complete operating ⟨err, 0⟩
  refine .reading (List.map_append).symm later unwritten fine ?_
  have transit : (half.readFails err).1.inTransit (some ⟨err, 0⟩) = [] := if_neg failed
  rw [transit]
  exact carries

theorem expire (flow : Flow half jobs) (waiting : half.timed.timeout.waiting = true) :
    Flow (half.withTimed half.timed.expire).1 (jobs ++ (half.withTimed half.timed.expire).2) := by
  have moving : ¬ half.Still := by
    intro still
    rw [still.2] at waiting
    cases waiting
  obtain ⟨marks, outcome, reads, rfl, stage, unwritten, fine, carries⟩ := flow.busy moving
  exact .reading (List.map_append).symm (stage.expire waiting) unwritten fine carries

theorem send {rest : Bytes} (flow : Flow half jobs) (going : half.writing = some rest)
    (count : Nat) : Flow (half.send rest count).1 (jobs ++ (half.send rest count).2) := by
  cases flow with
  | writing queued still same fine carries =>
      obtain rfl := Option.some.inj (going.symm.trans same)
      have cut : half.received = (half.sent ++ rest.take count) ++ rest.drop count := by
        rw [List.append_assoc, List.take_append_drop, carries]
      subst queued
      unfold HalfTunnel.send
      split
      · next last =>
          refine .written (.inl rfl) still rfl ?_ (fun _ => fine)
          rw [last, List.append_nil] at cut
          simpa only [HalfTunnel.Settled, fine] using cut
      · exact .writing rfl still rfl fine cut
  | reading _ _ unwritten | posted _ _ unwritten | handed _ _ unwritten | written _ _ unwritten
  | ended _ _ unwritten => simp [unwritten] at going

theorem writeFails {rest : Bytes} (flow : Flow half jobs) (going : half.writing = some rest)
    (failed : err ≠ .ok) : Flow (half.writeFails err (.peerError err)).1
      (jobs ++ (half.writeFails err (.peerError err)).2) := by
  cases flow with
  | writing queued still same fine carries =>
      have begun : half.sent <+: half.received := ⟨_, carries.symm⟩
      subst queued
      exact .written (.inl rfl) still rfl begun (fun ok => absurd ok failed)
  | reading _ _ unwritten | posted _ _ unwritten | handed _ _ unwritten | written _ _ unwritten
  | ended _ _ unwritten => simp [unwritten] at going

theorem timer (flow : Flow half (.read (.timer err) :: jobs)) :
    ∃ change, half.timed.handleTimer err = .ok change ∧
      Flow (half.withTimed change).1 (jobs ++ (half.withTimed change).2) := by
  obtain ⟨marks, outcome, rest, rfl, stage, unwritten, fine, carries⟩ := flow.read
  obtain ⟨after, posted, handled, later⟩ := stage.timer
  exact ⟨(after, posted), handled,
    .reading (List.map_append).symm later unwritten fine carries⟩

theorem operation (flow : Flow half (.read (.operation result) :: jobs))
    (timely : .read (.timer .ok) ∉ jobs) :
    ∃ change, half.timed.handleOperation (.postRead result) = .ok change ∧
      Flow (half.withTimed change).1 (jobs ++ (half.withTimed change).2) := by
  obtain ⟨marks, outcome, rest, rfl, stage, unwritten, fine, carries⟩ := flow.read
  obtain ⟨rfl, after, posted, handled, later⟩ := stage.operation
    (fun queued => timely (List.mem_map_of_mem queued))
  exact ⟨(after, posted), handled,
    .reading (List.map_append).symm later unwritten fine carries⟩

theorem cancelSocket (flow : Flow half (.read (.run .cancelSocket) :: jobs)) : Flow half jobs := by
  obtain ⟨marks, outcome, rest, rfl, stage, unwritten, fine, carries⟩ := flow.read
  rcases stage.run with ⟨_, later⟩ | ⟨_, same, _⟩
  · exact .reading rfl later unwritten fine carries
  · cases same

theorem postRead (flow : Flow half (.read (.run (.postRead result)) :: jobs)) :
    Flow { half with timed := { half.timed with phase := .idle } } (jobs ++ [.setSize result]) := by
  obtain ⟨marks, outcome, rest, rfl, stage, unwritten, fine, carries⟩ := flow.read
  rcases stage.run with ⟨same, _⟩ | ⟨_, same, rfl, rfl, quiet, _⟩
  · cases same
  · cases same
    refine .posted rfl ⟨rfl, ?_⟩ unwritten fine carries
    rw [quiet]
    rfl

theorem single {job : TunnelJob} (flow : Flow half (job :: jobs))
    (other : ∀ read, job ≠ .read read) :
    jobs = [] ∧ half.Still ∧ half.writing = none ∧
      ((∃ result, job = .setSize result ∧ half.delivery = .fine ∧
          half.received = half.sent ++ half.inTransit (some result)) ∨
        (∃ result, job = .handleRead result ∧ half.delivery = .fine ∧
          half.received = half.sent ++ half.inTransit (some result) ∧
          half.buffer.mLength = result.bytesTransfered) ∨
        ∃ err, (job = .written err ∨ job = .handleWrite err) ∧ half.Settled ∧
          (err = .ok → half.delivery = .fine)) := by
  cases flow with
  | reading queued =>
      obtain ⟨first, rest, _, same, _⟩ := List.map_eq_cons_iff.mp queued.symm
      exact absurd same.symm (other first)
  | posted queued still unwritten fine carries =>
      cases queued
      exact ⟨rfl, still, unwritten, .inl ⟨_, rfl, fine, carries⟩⟩
  | handed queued still unwritten fine carries sized =>
      cases queued
      exact ⟨rfl, still, unwritten, .inr (.inl ⟨_, rfl, fine, carries, sized⟩)⟩
  | writing queued => cases queued
  | written queued still unwritten settled intact =>
      rcases queued with queued | queued
      · cases queued
        exact ⟨rfl, still, unwritten, .inr (.inr ⟨_, .inl rfl, settled, intact⟩)⟩
      · cases queued
        exact ⟨rfl, still, unwritten, .inr (.inr ⟨_, .inr rfl, settled, intact⟩)⟩
  | ended queued => cases queued

theorem setSize (flow : Flow half (.setSize result :: jobs)) :
    Flow { half with buffer := half.buffer.setSize result.bytesTransfered }
      (jobs ++ [.handleRead result]) := by
  obtain ⟨rfl, still, unwritten, ⟨_, same, fine, carries⟩ | ⟨_, same, _⟩ | ⟨_, same | same, _⟩⟩ :=
    flow.single (fun _ => nofun)
  · cases same
    exact .handed rfl still unwritten fine carries rfl
  all_goals cases same

theorem handleRead (flow : Flow half (.handleRead result :: jobs)) (arrived : result.err = .ok) :
    Flow { half with writing := some half.buffer.contents } jobs := by
  obtain ⟨rfl, still, unwritten, ⟨_, same, _⟩ | ⟨_, same, fine, carries, sized⟩ |
    ⟨_, same | same, _⟩⟩ := flow.single (fun _ => nofun)
  · cases same
  · cases same
    refine .writing rfl still rfl fine ?_
    rw [carries]
    simp only [HalfTunnel.inTransit, if_pos arrived, ContigBuffer.contents, sized]
  all_goals cases same

theorem handleReadError (flow : Flow half (.handleRead result :: jobs)) (failed : result.err ≠ .ok) :
    Flow { half with done := some result.err } jobs := by
  obtain ⟨rfl, still, unwritten, ⟨_, same, _⟩ | ⟨_, same, fine, carries, _⟩ |
    ⟨_, same | same, _⟩⟩ := flow.single (fun _ => nofun)
  · cases same
  · cases same
    refine .ended rfl still unwritten ?_
    simp only [HalfTunnel.inTransit, if_neg failed, List.append_nil] at carries
    simpa only [HalfTunnel.Settled, fine] using carries
  all_goals cases same

theorem writtenJob (flow : Flow half (.written err :: jobs)) :
    Flow half (jobs ++ [.handleWrite err]) := by
  obtain ⟨rfl, still, unwritten, ⟨_, same, _⟩ | ⟨_, same, _⟩ | ⟨_, same | same, settled, intact⟩⟩ :=
    flow.single (fun _ => nofun)
  · cases same
  · cases same
  · cases same
    exact .written (.inr rfl) still unwritten settled intact
  · cases same

theorem handleWrite (flow : Flow half (.handleWrite .ok :: jobs)) :
    Flow half.pStartRead.1 (jobs ++ half.pStartRead.2) := by
  obtain ⟨rfl, still, unwritten, ⟨_, same, _⟩ | ⟨_, same, _⟩ | ⟨_, same | same, settled, intact⟩⟩ :=
    flow.single (fun _ => nofun)
  · cases same
  · cases same
  · cases same
  · cases same
    exact startRead still unwritten (intact rfl) settled

theorem handleWriteError (flow : Flow half (.handleWrite err :: jobs)) :
    Flow { half with done := some err } jobs := by
  obtain ⟨rfl, still, unwritten, ⟨_, same, _⟩ | ⟨_, same, _⟩ | ⟨_, same | same, settled, _⟩⟩ :=
    flow.single (fun _ => nofun)
  · cases same
  · cases same
  · cases same
  · exact .ended rfl still unwritten settled

theorem Settled.sent_prefix (settled : half.Settled) : half.sent <+: half.received := by
  unfold HalfTunnel.Settled at settled
  split at settled
  · exact ⟨[], by rw [settled, List.append_nil]⟩
  · exact settled
  · exact settled.elim

theorem not_aborted (flow : Flow half jobs) : half.delivery ≠ .aborted := by
  intro aborted
  cases flow with
  | reading _ _ _ fine | posted _ _ _ fine | handed _ _ _ fine => simp [fine] at aborted
  | writing _ _ _ fine => simp [fine] at aborted
  | written _ _ _ settled => simp [HalfTunnel.Settled, aborted] at settled
  | ended _ _ _ settled => simp [HalfTunnel.Settled, aborted] at settled

theorem sent_prefix (flow : Flow half jobs) : half.sent <+: half.received := by
  cases flow with
  | reading _ _ _ _ carries | posted _ _ _ _ carries => exact ⟨_, carries.symm⟩
  | handed _ _ _ _ carries => exact ⟨_, carries.symm⟩
  | writing _ _ _ _ carries => exact ⟨_, carries.symm⟩
  | written _ _ _ settled => exact Settled.sent_prefix settled
  | ended _ _ _ settled => exact Settled.sent_prefix settled

theorem all_sent (flow : Flow half []) (unwritten : half.writing = none)
    (unbroken : ∀ err, half.delivery ≠ .peerError err) : half.sent = half.received := by
  cases flow with
  | reading queued stage _ _ carries =>
      obtain rfl := List.map_eq_nil_iff.mp queued.symm
      obtain rfl := stage.outcome_none
      exact ((List.append_nil _).symm.trans carries.symm)
  | posted queued | handed queued => cases queued
  | writing _ _ going => simp [unwritten] at going
  | written queued => rcases queued with queued | queued <;> cases queued
  | ended _ _ _ settled =>
      unfold HalfTunnel.Settled at settled
      split at settled
      · exact settled.symm
      · next broken => exact absurd broken (unbroken _)
      · exact settled.elim

end Flow

namespace TunnelHandler

def Invariant (tunnel : TunnelHandler) : Prop :=
  ∀ side, Flow (tunnel.halves side) (tagged side tunnel.queue)

variable {tunnel : TunnelHandler} {side : End}

theorem act_each {holds : End → HalfTunnel → List TunnelJob → Prop}
    {change : HalfTunnel × List TunnelJob}
    (own : holds side change.1 (tagged side tunnel.queue ++ change.2))
    (others : ∀ other, other ≠ side → holds other (tunnel.halves other) (tagged other tunnel.queue))
    (other : End) :
    holds other ((tunnel.act side change).halves other)
      (tagged other (tunnel.act side change).queue) := by
  by_cases same : other = side
  · subst same
    simpa [act] using own
  · simpa [act, same, tagged_map_ne (Ne.symm same)] using others other same

theorem onHalfDone_each {holds : End → HalfTunnel → List TunnelJob → Prop} {err : ErrorType}
    (own : holds side { tunnel.halves side with done := some err } (tagged side tunnel.queue))
    (others : ∀ other, other ≠ side → holds other (tunnel.halves other) (tagged other tunnel.queue))
    (other : End) :
    holds other ((tunnel.onHalfDone side err).halves other)
      (tagged other (tunnel.onHalfDone side err).queue) := by
  have halves : (tunnel.onHalfDone side err).halves =
      (tunnel.act side ({ tunnel.halves side with done := some err }, [])).halves := by
    simp only [onHalfDone, tryDone]
    split <;> split <;> rfl
  have queue : (tunnel.onHalfDone side err).queue =
      (tunnel.act side ({ tunnel.halves side with done := some err }, [])).queue := by
    simp only [onHalfDone, tryDone]
    split <;> split <;> rfl
  rw [halves, queue]
  exact act_each (by simpa using own) others other

theorem act_invariant {change : HalfTunnel × List TunnelJob}
    (own : Flow change.1 (tagged side tunnel.queue ++ change.2))
    (others : ∀ other, other ≠ side → Flow (tunnel.halves other) (tagged other tunnel.queue)) :
    (tunnel.act side change).Invariant :=
  @act_each _ _ (fun _ => Flow) _ own others

theorem onHalfDone_invariant {err : ErrorType}
    (own : Flow { tunnel.halves side with done := some err } (tagged side tunnel.queue))
    (others : ∀ other, other ≠ side → Flow (tunnel.halves other) (tagged other tunnel.queue)) :
    (tunnel.onHalfDone side err).Invariant :=
  @onHalfDone_each _ _ (fun _ => Flow) _ own others

/-- The expire handler of a read is run only when the other half has no write
outstanding on the connection, and the completion of a read only when no
successful wait of its timer is in the queue. -/
def SparedHead (tunnel : TunnelHandler) : List (End × TunnelJob) → Prop
  | (side, .read (.run .cancelSocket)) :: _ => (tunnel.halves side.other).writing = none
  | (side, .read (.operation _)) :: queue => (side, .read (.timer .ok)) ∉ queue
  | _ => True

def Spared (tunnel : TunnelHandler) : Input → Prop
  | .run => tunnel.SparedHead tunnel.queue
  | _ => True

theorem socketCancel_invariant (own : Flow (tunnel.halves side) (tagged side tunnel.queue))
    (others : ∀ other, other ≠ side → Flow (tunnel.halves other) (tagged other tunnel.queue))
    (spared : (tunnel.halves side.other).writing = none) :
    (tunnel.socketCancel side).Invariant := by
  have whole : tunnel.Invariant := by
    intro other
    by_cases same : other = side
    · exact same ▸ own
    · exact others other same
  by_cases operating : (tunnel.halves side).timed.phase = .operating
  · have untouched : ((tunnel.act side
        ((tunnel.halves side).readFails .operationAborted)).halves side.other).writing = none := by
      simpa [act] using spared
    simp only [socketCancel, if_pos operating, untouched, Option.isSome_none, Bool.false_eq_true,
      if_false]
    exact act_invariant (own.readFails operating (by decide)) others
  · simp only [socketCancel, if_neg operating, spared, Option.isSome_none, Bool.false_eq_true,
      if_false]
    exact whole

theorem Invariant.runJob {job : TunnelJob} {queue : List (End × TunnelJob)}
    (invariant : tunnel.Invariant) (first : tunnel.queue = (side, job) :: queue)
    (spared : tunnel.Spared .run) :
    ∃ next, { tunnel with queue }.runJob side job = .ok next ∧ next.Invariant := by
  have own := invariant side
  rw [first, tagged_cons_self] at own
  have others : ∀ other, other ≠ side → Flow (tunnel.halves other) (tagged other queue) := by
    intro other different
    have flow := invariant other
    rwa [first, tagged_cons_ne (Ne.symm different)] at flow
  simp only [Spared, first] at spared
  cases job with
  | read job =>
      cases job with
      | timer err =>
          obtain ⟨change, handled, later⟩ := own.timer
          refine ⟨_, by simp only [TunnelHandler.runJob, handled]; rfl, ?_⟩
          exact act_invariant later others
      | operation result =>
          obtain ⟨change, handled, later⟩ := own.operation (fun late => spared (mem_tagged.mp late))
          refine ⟨_, by simp only [TunnelHandler.runJob, handled]; rfl, ?_⟩
          exact act_invariant later others
      | run handler =>
          cases handler with
          | cancelSocket => exact ⟨_, rfl, socketCancel_invariant own.cancelSocket others spared⟩
          | postRead result => exact ⟨_, rfl, act_invariant own.postRead others⟩
  | setSize result => exact ⟨_, rfl, act_invariant own.setSize others⟩
  | handleRead result =>
      refine ⟨_, rfl, ?_⟩
      simp only [pHandleRead]
      split
      · next arrived => exact act_invariant (by simpa using own.handleRead arrived) others
      · next failed => exact onHalfDone_invariant (own.handleReadError failed) others
  | written err => exact ⟨_, rfl, act_invariant own.writtenJob others⟩
  | handleWrite err =>
      refine ⟨_, rfl, ?_⟩
      simp only [pHandleWrite]
      split
      · next done =>
          subst done
          exact act_invariant own.handleWrite others
      · exact onHalfDone_invariant own.handleWriteError others

theorem Invariant.step {input : Input} (invariant : tunnel.Invariant)
    (enabled : tunnel.Enabled input) (spared : tunnel.Spared input) :
    ∃ next, tunnel.step input = .ok next ∧ next.Invariant := by
  cases input with
  | receive side data =>
      exact ⟨_, rfl, act_invariant ((invariant side).receive enabled.1 data)
        (fun other _ => invariant other)⟩
  | readError side err =>
      exact ⟨_, rfl, act_invariant ((invariant side).readFails enabled.1 enabled.2)
        (fun other _ => invariant other)⟩
  | send side count =>
      obtain ⟨rest, going⟩ := Option.ne_none_iff_exists'.mp enabled
      refine ⟨_, by simp only [TunnelHandler.step, going]; rfl, ?_⟩
      exact act_invariant ((invariant side).send going count) (fun other _ => invariant other)
  | writeError side err =>
      obtain ⟨rest, going⟩ := Option.ne_none_iff_exists'.mp enabled.1
      exact ⟨_, rfl, act_invariant ((invariant side).writeFails going enabled.2)
        (fun other _ => invariant other)⟩
  | expire side =>
      exact ⟨_, rfl, act_invariant ((invariant side).expire enabled)
        (fun other _ => invariant other)⟩
  | run =>
      cases first : tunnel.queue with
      | nil => exact absurd first enabled
      | cons entry queue =>
          obtain ⟨next, ran, kept⟩ := invariant.runJob first spared
          exact ⟨next, by simpa only [TunnelHandler.step, first] using ran, kept⟩

theorem start_invariant {timeouts : End → Timeout ReadHandler}
    (off : ∀ side, (timeouts side).waiting = false) : (new timeouts).start.Invariant := by
  intro side
  have begun : Flow (HalfTunnel.new (timeouts side)).pStartRead.1
      (HalfTunnel.new (timeouts side)).pStartRead.2 :=
    Flow.startRead ⟨rfl, off side⟩ rfl rfl rfl
  have unposted (other : End) : (HalfTunnel.new (timeouts other)).pStartRead.2 = [] := by
    simp [HalfTunnel.pStartRead, HalfTunnel.withTimed, HalfTunnel.new, Timed.begin,
      Timeout.setTimeout, Timeout.expiresFromNow, off other]
  rw [unposted] at begun
  cases side with
  | downstream => simpa [start, new, act, unposted] using begun
  | upstream => simpa [start, new, act, unposted] using begun

theorem reached_invariant (reached : runs.Reaches Spared tunnel) : tunnel.Invariant :=
  Transition.ofStep_invariant (fun ⟨_, off, started⟩ => started ▸ start_invariant off)
    (fun invariant spared enabled => invariant.step enabled spared) reached

/-- In a run in which no expire handler meets a write of the other half, and no
completed read a successful wait of its timer, no write is aborted, a half sends
what it has received and nothing else, and once nothing is queued and no write is
outstanding it has sent all of it, unless the peer of its write end has caused an
error. -/
theorem spared_runs_deliver (reached : runs.Reaches Spared tunnel) (side : End) :
    (tunnel.halves side).delivery ≠ .aborted ∧
      (tunnel.halves side).sent <+: (tunnel.halves side).received ∧
      (tunnel.queue = [] → (tunnel.halves side).writing = none →
        (∀ err, (tunnel.halves side).delivery ≠ .peerError err) →
        (tunnel.halves side).sent = (tunnel.halves side).received) := by
  have flow := reached_invariant reached side
  refine ⟨flow.not_aborted, flow.sent_prefix, fun empty unwritten unbroken => ?_⟩
  rw [empty] at flow
  exact flow.all_sent unwritten unbroken

def fresh : TunnelHandler := (new (fun _ => .quiet)).start

instance (tunnel : TunnelHandler) : DecidablePred tunnel.SparedHead
  | (side, .read (.run .cancelSocket)) :: _ =>
      inferInstanceAs (Decidable ((tunnel.halves side.other).writing = none))
  | (side, .read (.operation _)) :: queue =>
      inferInstanceAs (Decidable ((side, .read (.timer .ok)) ∉ queue))
  | [] | (_, .read (.timer _)) :: _ | (_, .read (.run (.postRead _))) :: _
  | (_, .setSize _) :: _ | (_, .handleRead _) :: _ | (_, .written _) :: _
  | (_, .handleWrite _) :: _ => .isTrue trivial

instance (tunnel : TunnelHandler) : DecidablePred tunnel.Spared
  | .run => inferInstanceAs (Decidable (tunnel.SparedHead tunnel.queue))
  | .receive .. | .readError .. | .send .. | .writeError .. | .expire _ => .isTrue trivial

def startedWrite : List Input :=
  .receive .upstream [104, 105] :: List.replicate 5 .run

def finishedWrite : List Input :=
  startedWrite ++ [.send .upstream 2, .run, .run]

def expiredWrite : List Input :=
  startedWrite ++ .expire .downstream :: List.replicate 8 .run

theorem relayed_bytes_sent :
    ∃ tunnel, runs.Reaches Spared tunnel ∧ (tunnel.halves .upstream).received = [104, 105] ∧
      (tunnel.halves .upstream).sent = (tunnel.halves .upstream).received := by
  have initial : runs.Reaches Spared fresh := .initial ⟨fun _ => .quiet, fun _ => rfl, rfl⟩
  have reached := Transition.ofStep_follow initial (show
    finishedWrite.foldlM (Transition.attempt Spared Enabled step) fresh = some _ from rfl)
  exact ⟨_, reached, rfl, (spared_runs_deliver reached .upstream).2.2 rfl rfl (fun _ => nofun)⟩

/-- A client that takes nothing and sends nothing: its read timeout expires while
the bytes of the server are being written to it. -/
theorem expiry_aborts_other_write :
    ∃ tunnel, runs.Reaches Transition.unguarded tunnel ∧ tunnel.queue = [] ∧
      (tunnel.halves .upstream).delivery = .aborted ∧
      (tunnel.halves .upstream).received = [104, 105] ∧ (tunnel.halves .upstream).sent = [] := by
  have initial : runs.Reaches Transition.unguarded fresh :=
    .initial ⟨fun _ => .quiet, fun _ => rfl, rfl⟩
  have reached := Transition.ofStep_follow initial (show
    expiredWrite.foldlM (Transition.attempt Transition.unguarded Enabled step) fresh = some _
      from rfl)
  exact ⟨_, reached, rfl, rfl, rfl, rfl⟩

end TunnelHandler

end Marvin.Connection
