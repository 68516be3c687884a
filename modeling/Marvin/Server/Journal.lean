import Marvin.Collector.CoutCollector
import Marvin.Server.Collection
import Marvin.Server.Serving

namespace Marvin.Server

open Marvin.Data Marvin.Http Marvin.Message Marvin.Collector

/-! # The proxy and its collector

`mitm_thread.hpp` makes one `CoutCollector` for all connections, on the io_service
of the server.  The callbacks of the connections collect exchanges, and the closures
that are posted for them run between other callbacks.
-/

/-- What the connections share. -/
structure Journal where
  filters : List Bytes
  showMessageBodies : Bool
  collector : CoutCollector
  /-- Whether bodies were to be shown, for each closure of the collector that has run. -/
  shown : List Bool
deriving DecidableEq, Repr

namespace Journal

def postedCollect (methodStr : HttpMethod → Bytes) (journal : Journal) : Journal :=
  { journal with
    collector := CoutCollector.postedCollect methodStr journal.showMessageBodies journal.collector
    shown := journal.shown ++ [journal.showMessageBodies] }

/-- The control application sets the filters and whether bodies are shown; otherwise
the next closure runs. -/
def Outside (methodStr : HttpMethod → Bytes) (journal next : Journal) : Prop :=
  (next.collector = journal.collector ∧ next.shown = journal.shown) ∨
    (journal.collector.posted ≠ [] ∧ next = journal.postedCollect methodStr)

/-- Of the exchanges collected so far, those whose closures have run are on the
console, in order, each as one text. -/
structure Printed (methodStr : HttpMethod → Bytes) (journal : Journal) : Prop where
  waiting : journal.collector.posted = journal.collector.given.drop journal.shown.length
  covered : journal.shown.length ≤ journal.collector.given.length
  output : journal.collector.output =
    (List.zipWith (CoutCollector.text methodStr) journal.shown journal.collector.given).flatten

/-- The collector prints with the flags that were set when its closures ran. -/
structure Faithful (methodStr : HttpMethod → Bytes) (journal : Journal) : Prop where
  inOrder : journal.collector.InOrder (CoutCollector.text methodStr)
  flags : journal.collector.circumstances = journal.shown

variable {methodStr : HttpMethod → Bytes} {journal next : Journal}

theorem Faithful.printed (faithful : journal.Faithful methodStr) : journal.Printed methodStr := by
  have flags := faithful.flags
  refine ⟨?_, ?_, ?_⟩
  · rw [← flags]
    exact faithful.inOrder.posted
  · rw [← flags]
    exact faithful.inOrder.printed
  · rw [← flags]
    exact faithful.inOrder.output

theorem Faithful.outside (faithful : journal.Faithful methodStr)
    (changed : journal.Outside methodStr next) : next.Faithful methodStr := by
  rcases changed with ⟨collector, shown⟩ | ⟨waiting, rfl⟩
  · refine ⟨?_, ?_⟩
    · rw [collector]
      exact faithful.inOrder
    · rw [collector, shown]
      exact faithful.flags
  · refine ⟨faithful.inOrder.run journal.showMessageBodies, ?_⟩
    have ran := Spool.circumstances_run (CoutCollector.text methodStr) journal.showMessageBodies
      waiting
    exact ran.trans (congrArg (· ++ [journal.showMessageBodies]) faithful.flags)

theorem Outside.given (changed : journal.Outside methodStr next) :
    next.collector.given = journal.collector.given := by
  rcases changed with ⟨collector, _⟩ | ⟨_, rfl⟩
  · rw [collector]
  · exact Spool.given_run _ _ _

end Journal

def Effect.exchange? : Effect → Option Exchange
  | .collect scheme host request response => some ⟨scheme, host, request, response⟩
  | _ => none

/-- The exchanges that a connection has collected. -/
def Collecting.exchanges (collecting : Collecting) : List Exchange :=
  collecting.effects.filterMap Effect.exchange?

/-- A connection, and where its exchanges are among those of all connections. -/
structure Recorded where
  collecting : Collecting
  places : List Nat
deriving DecidableEq, Repr

def recordingApp (urls : UrlParser) (regex : Bytes → Option (Bytes → Bool))
    (methodStr : HttpMethod → Bytes) : RequestHandler Journal Recorded Completion where
  handle := ⟨.handle (.ofServer [] [] []), []⟩
  Enabled recorded := recorded.collecting.Enabled
  callback journal recorded completion := do
    let collecting ← recorded.collecting.step urls regex journal.filters methodStr completion
    let exchanges := collecting.exchanges.drop recorded.collecting.exchanges.length
    return ({ journal with collector := exchanges.foldl CoutCollector.collect journal.collector },
      ⟨collecting, recorded.places ++
        List.range' journal.collector.given.length exchanges.length⟩)
  done recorded := recorded.collecting.session.doneCallbacks
  outside := Journal.Outside methodStr

abbrev Recording := Serving Journal Recorded

variable {urls : UrlParser} {regex : Bytes → Option (Bytes → Bool)}
  {methodStr : HttpMethod → Bytes}

/-! ## What a callback collects -/

namespace Collecting

variable {filters : List Bytes} {collecting next : Collecting} {completion : Completion}

/-- The completions after which an exchange is collected. -/
def answers : Completion → Bool
  | .httpRoundtrip (.ok _) | .httpsRoundtrip (.ok _) => true
  | _ => false

theorem handled_exchanges {effects : List Effect}
    (results : collecting.handled completion = .ok effects) :
    (effects.filterMap Effect.exchange?).length ≤ 1 ∧
      (answers completion = false → effects.filterMap Effect.exchange? = []) := by
  unfold handled at results
  split at results
  · split at results
    · obtain rfl := Except.ok.inj results
      exact ⟨Nat.zero_le _, fun _ => rfl⟩
    · obtain rfl := Except.ok.inj results
      exact ⟨Nat.zero_le _, fun _ => rfl⟩
  · obtain rfl := Except.ok.inj results
    exact ⟨Nat.zero_le _, fun _ => rfl⟩
  · obtain rfl := Except.ok.inj results
    exact ⟨Nat.le_refl _, fun silent => Bool.noConfusion silent⟩
  · obtain ⟨⟨upstream, err⟩, _, rest⟩ := exists_ok_of_bind results
    dsimp only at rest
    split at rest
    · obtain rfl := Except.ok.inj rest
      exact ⟨Nat.zero_le _, fun _ => rfl⟩
    · obtain rfl := Except.ok.inj rest
      exact ⟨Nat.zero_le _, fun _ => rfl⟩
  · obtain rfl := Except.ok.inj results
    exact ⟨Nat.le_refl _, fun silent => Bool.noConfusion silent⟩
  · obtain rfl := Except.ok.inj results
    exact ⟨Nat.zero_le _, fun _ => rfl⟩

theorem step_exchanges (done : collecting.step urls regex filters methodStr completion = .ok next) :
    ∃ new, next.exchanges = collecting.exchanges ++ new ∧ new.length ≤ 1 ∧
      (answers completion = false → new = []) := by
  obtain ⟨session, _, naming⟩ := exists_ok_of_bind done
  obtain ⟨named, same, handling⟩ := exists_ok_of_bind naming
  obtain ⟨effects, handled, made⟩ := exists_ok_of_bind handling
  have kept : named.effects = collecting.effects := by
    cases completion with
    | firstRead result =>
        cases result with
        | error err => rw [← Except.ok.inj same]
        | ok request =>
            obtain ⟨uri, _, rest⟩ := exists_ok_of_bind same
            rw [← Except.ok.inj rest]
    | _ => rw [← Except.ok.inj same]
  obtain rfl := Except.ok.inj made
  obtain ⟨few, silent⟩ := handled_exchanges handled
  refine ⟨effects.filterMap Effect.exchange?, ?_, few, silent⟩
  change (named.effects ++ effects).filterMap Effect.exchange? = _
  rw [List.filterMap_append, kept]
  rfl

end Collecting

namespace Recorded

/-- What a callback does to the journal: nothing, or it collects one exchange. -/
inductive Turn (journal next : Journal) (before after : Recorded) : Prop where
  | silent (same : next = journal) (exchanges : after.collecting.exchanges = before.collecting.exchanges)
      (places : after.places = before.places)
  | collects (exchange : Exchange)
      (grown : next = { journal with collector := journal.collector.collect exchange })
      (exchanges : after.collecting.exchanges = before.collecting.exchanges ++ [exchange])
      (places : after.places = before.places ++ [journal.collector.given.length])

variable {journal next : Journal} {before after : Recorded} {completion : Completion}

theorem callback_turn
    (called : (recordingApp urls regex methodStr).callback journal before completion =
      .ok (next, after)) :
    before.collecting.step urls regex journal.filters methodStr completion =
        .ok after.collecting ∧
      Turn journal next before after := by
  obtain ⟨collecting, stepped, rest⟩ := exists_ok_of_bind called
  obtain ⟨rfl, rfl⟩ := Prod.mk.inj (Except.ok.inj rest)
  obtain ⟨new, grown, few, _⟩ := Collecting.step_exchanges stepped
  refine ⟨stepped, ?_⟩
  have drop : collecting.exchanges.drop before.collecting.exchanges.length = new := by
    rw [grown, List.drop_left]
  rw [drop]
  match new with
  | [] => exact .silent rfl (grown.trans (List.append_nil _)) (List.append_nil _)
  | [exchange] => exact .collects exchange rfl grown rfl
  | _ :: _ :: _ => exact absurd few (by simp)

/-! ## One connection -/

/-- A connection collects one exchange at most, and then it only writes the response. -/
inductive Answered (collecting : Collecting) : Prop where
  | nothing (none : collecting.exchanges = [])
  | once (target server port : Bytes) (exchange : Exchange)
      (shape : collecting.effects = [.forward target server port exchange.req,
        .collect exchange.scheme exchange.host exchange.req exchange.resp, .respond exchange.resp])
      (writing : ∀ operation ∈ collecting.session.outstanding,
        operation = .httpWrite ∨ operation = .httpsWrite)

structure Good (recorded : Recorded) : Prop where
  sound : recorded.collecting.session.Sound fun _ => True
  stage : recorded.collecting = .handle (.ofServer [] [] []) ∨
    recorded.collecting.session.outstanding = [] ∨
    ∃ scheme host completions, Collecting.Tracked scheme host completions recorded.collecting
  answered : Answered recorded.collecting

section Step

variable {scheme host : Bytes} {completions : List Completion} {collecting following : Collecting}
  {regex : Bytes → Option (Bytes → Bool)}
  {filters : List Bytes}

end Step

theorem Good.single (good : Good before) : before.collecting.exchanges.length ≤ 1 := by
  cases good.answered with
  | nothing none =>
      rw [none]
      exact Nat.zero_le _
  | once target server port exchange shape writing =>
      rw [Collecting.exchanges, shape]
      exact Nat.le_refl _

/-! ## All connections -/

/-- The exchanges of a connection are where its places say. -/
def Placed (journal : Journal) (recorded : Recorded) : Prop :=
  recorded.places.map (journal.collector.given[·]?) = recorded.collecting.exchanges.map some

theorem Placed.within {recorded : Recorded} (placed : Placed journal recorded) :
    ∀ place ∈ recorded.places, place < journal.collector.given.length := by
  intro place member
  have found : journal.collector.given[place]? ∈ recorded.collecting.exchanges.map some := by
    rw [← placed]
    exact List.mem_map_of_mem member
  obtain ⟨exchange, _, same⟩ := List.mem_map.mp found
  exact (List.getElem?_eq_some_iff.mp same.symm).1

theorem Placed.grow {recorded : Recorded} (placed : Placed journal recorded)
    (longer : journal.collector.given <+: next.collector.given) : Placed next recorded := by
  obtain ⟨more, grown⟩ := longer
  rw [Placed, ← placed]
  apply List.map_congr_left
  intro place member
  rw [← grown, List.getElem?_append_left (placed.within place member)]

end Recorded

instance (journal : Journal) :
    DecidablePred ((recordingApp urls regex methodStr).outside journal) := fun next =>
  inferInstanceAs (Decidable ((next.collector = journal.collector ∧ next.shown = journal.shown) ∨
    (journal.collector.posted ≠ [] ∧ next = journal.postedCollect methodStr)))

instance (recorded : Recorded) :
    DecidablePred ((recordingApp urls regex methodStr).Enabled recorded) :=
  inferInstanceAs (DecidablePred recorded.collecting.Enabled)

end Marvin.Server
