import Marvin.Data.Recent
import Marvin.Http.MessageBase

namespace Marvin.Collector

open Marvin.Data Marvin.Http

/-! # The capture collector

`marvin/collector/capture_collector.cpp`.  `collect` makes a record and posts a
closure to the `io_service`, which runs the closures in the order they came; the
closure files the record under its host.
-/

structure CapturedExchange where
  scheme : Bytes
  host : Bytes
  req : Option MessageBase
  resp : Option MessageBase
deriving DecidableEq, Repr

/-- A shared pointer to a record; `address` tells the records apart. -/
structure ExchangePtr where
  address : Nat
  exchange : CapturedExchange
deriving DecidableEq, Repr

def ExchangePtr.host (pointer : ExchangePtr) : Bytes :=
  pointer.exchange.host

structure HostCaptures where
  host : Bytes
  exchanges : List ExchangePtr
deriving DecidableEq, Repr

structure CaptureCollector where
  capturedTraffic : List HostCaptures
  /-- The closures that have not run, oldest first, by the record each holds. -/
  posted : List ExchangePtr
  /-- How many records there are. -/
  made : Nat
deriving DecidableEq, Repr

inductive CollectorEvent where
  | collect (scheme host : Bytes) (req resp : MessageBase)
  | runPosted
deriving DecidableEq, Repr

/-- The record of a call: neither message is kept. -/
def captured (scheme host : Bytes) (_req _resp : MessageBase) : CapturedExchange :=
  ⟨scheme, host, none, none⟩

namespace CaptureCollector

def new : CaptureCollector := ⟨[], [], 0⟩

/-- The loop over the hosts: the first one with the name gets the record. -/
def addToHost (pointer : ExchangePtr) : List HostCaptures → Option (List HostCaptures)
  | [] => none
  | item :: rest =>
      if item.host = pointer.host then
        some ({ item with exchanges := shrink 10 item.exchanges ++ [pointer] } :: rest)
      else (addToHost pointer rest).map (item :: ·)

/-- The body of the closure. -/
def file (traffic : List HostCaptures) (pointer : ExchangePtr) : List HostCaptures :=
  match addToHost pointer traffic with
  | some traffic => traffic
  | none => shrink 10 traffic ++ [⟨pointer.host, [pointer]⟩]

def step (collector : CaptureCollector) : CollectorEvent → CaptureCollector
  | .collect scheme host req resp =>
      { collector with
        posted := collector.posted ++ [⟨collector.made, captured scheme host req resp⟩]
        made := collector.made + 1 }
  | .runPosted =>
      match collector.posted with
      | [] => collector
      | pointer :: rest =>
          { collector with
            capturedTraffic := file collector.capturedTraffic pointer
            posted := rest }

def run (events : List CollectorEvent) : CaptureCollector :=
  events.foldl step new

/-- The records made by the calls, in order. -/
def collected (events : List CollectorEvent) : List ExchangePtr :=
  let records := events.filterMap fun
    | .collect scheme host req resp => some (captured scheme host req resp)
    | .runPosted => none
  records.zipIdx.map fun (exchange, address) => ⟨address, exchange⟩

/-- One event counted: a turn of the `io_service` runs one closure, as long as
there are calls whose closure has not run. -/
def tally : Nat × Nat → CollectorEvent → Nat × Nat
  | (calls, ran), .collect .. => (calls + 1, ran)
  | (calls, ran), .runPosted => (calls, min (ran + 1) calls)

/-- How many closures have run. -/
def closuresRun (events : List CollectorEvent) : Nat :=
  (events.foldl tally (0, 0)).2

/-! ## One closure -/

theorem addToHost_none {pointer : ExchangePtr} {traffic : List HostCaptures}
    (absent : pointer.host ∉ traffic.map HostCaptures.host) : addToHost pointer traffic = none := by
  induction traffic with
  | nil => rfl
  | cons item rest ih =>
      simp only [List.map_cons, List.mem_cons, not_or] at absent
      rw [addToHost, if_neg (Ne.symm absent.1), ih absent.2]
      rfl

theorem addToHost_some {pointer : ExchangePtr} {traffic : List HostCaptures}
    (distinct : (traffic.map HostCaptures.host).Nodup)
    (present : pointer.host ∈ traffic.map HostCaptures.host) :
    addToHost pointer traffic = some (traffic.map fun item =>
      if item.host = pointer.host then
        { item with exchanges := shrink 10 item.exchanges ++ [pointer] }
      else item) := by
  induction traffic with
  | nil => cases present
  | cons item rest ih =>
      rw [List.map_cons, List.nodup_cons] at distinct
      rw [addToHost, List.map_cons]
      by_cases same : item.host = pointer.host
      · have untouched : ∀ other ∈ rest, (if other.host = pointer.host then
            { other with exchanges := shrink 10 other.exchanges ++ [pointer] } else other) =
              other := by
          intro other member
          refine if_neg fun equal => distinct.1 ?_
          rw [same, ← equal]
          exact List.mem_map_of_mem member
        rw [if_pos same, if_pos same, List.map_congr_left untouched, List.map_id']
      · have later : pointer.host ∈ rest.map HostCaptures.host := by
          rcases List.mem_cons.mp present with here | there
          · exact absurd here.symm same
          · exact there
        rw [if_neg same, if_neg same, ih distinct.2 later]
        rfl

/-- What the store holds after the closures of a history have run. -/
def capturesOf (history : List ExchangePtr) : List HostCaptures :=
  (windows ExchangePtr.host 11 11 history).map fun (host, exchanges) => ⟨host, exchanges⟩

theorem capturesOf_hosts (history : List ExchangePtr) :
    (capturesOf history).map HostCaptures.host =
      (windows ExchangePtr.host 11 11 history).map Prod.fst := by
  rw [capturesOf, List.map_map]
  rfl

theorem file_capturesOf (history : List ExchangePtr) (pointer : ExchangePtr) :
    file (capturesOf history) pointer = capturesOf (history ++ [pointer]) := by
  have hosts := capturesOf_hosts history
  by_cases present : pointer.host ∈ (resident ExchangePtr.host 11 history).map Prod.snd
  · have found : pointer.host ∈ (capturesOf history).map HostCaptures.host := by
      rw [hosts, windows_keys]
      exact present
    have distinct : ((capturesOf history).map HostCaptures.host).Nodup := by
      rw [hosts]
      exact windows_nodup 11 history
    rw [file, addToHost_some distinct found, capturesOf, capturesOf, windows_present present,
      List.map_map, List.map_map]
    apply List.map_congr_left
    intro window _
    obtain ⟨host, exchanges⟩ := window
    simp only [Function.comp_apply]
    split <;> rfl
  · have missing : pointer.host ∉ (capturesOf history).map HostCaptures.host := by
      rw [hosts, windows_keys]
      exact present
    rw [file, addToHost_none missing, capturesOf, capturesOf, windows_absent present,
      shrink_eq_rtake, shrink_eq_rtake, ← map_rtake, List.map_append, List.map_singleton]

/-! ## Whole runs -/

theorem run_concat (events : List CollectorEvent) (event : CollectorEvent) :
    run (events ++ [event]) = (run events).step event := by
  rw [run, List.foldl_append, List.foldl_cons, List.foldl_nil, run]

theorem collected_collect (events : List CollectorEvent) (scheme host : Bytes)
    (req resp : MessageBase) :
    collected (events ++ [.collect scheme host req resp]) =
      collected events ++ [⟨(collected events).length, captured scheme host req resp⟩] := by
  simp only [collected, List.filterMap_append, List.zipIdx_append, List.map_append,
    List.length_map, List.length_zipIdx, Nat.zero_add]
  rfl

theorem collected_runPosted (events : List CollectorEvent) :
    collected (events ++ [.runPosted]) = collected events := by
  simp [collected]

theorem tally_calls (events : List CollectorEvent) :
    (events.foldl tally (0, 0)).1 = (collected events).length := by
  induction events using List.reverseRecOn with
  | nil => rfl
  | append_singleton events event ih =>
      rw [List.foldl_append, List.foldl_cons, List.foldl_nil]
      cases event with
      | collect scheme host req resp =>
          rw [collected_collect, List.length_append, ← ih]
          rfl
      | runPosted =>
          rw [collected_runPosted, ← ih]
          rfl

theorem closuresRun_collect (events : List CollectorEvent) (scheme host : Bytes)
    (req resp : MessageBase) :
    closuresRun (events ++ [.collect scheme host req resp]) = closuresRun events := by
  rw [closuresRun, List.foldl_append]
  rfl

theorem closuresRun_runPosted (events : List CollectorEvent) :
    closuresRun (events ++ [.runPosted]) =
      min (closuresRun events + 1) (collected events).length := by
  rw [closuresRun, List.foldl_append, ← tally_calls]
  rfl

theorem closuresRun_le (events : List CollectorEvent) :
    closuresRun events ≤ (collected events).length := by
  induction events using List.reverseRecOn with
  | nil => exact Nat.le_refl 0
  | append_singleton events event ih =>
      cases event with
      | collect scheme host req resp =>
          rw [closuresRun_collect, collected_collect, List.length_append]
          exact Nat.le_add_right_of_le ih
      | runPosted =>
          rw [closuresRun_runPosted, collected_runPosted]
          exact Nat.min_le_right _ _

/-- The records of the closures that ran are filed, the others wait in order. -/
structure Filed (events : List CollectorEvent) : Prop where
  posted : (run events).posted = (collected events).drop (closuresRun events)
  made : (run events).made = (collected events).length
  traffic : (run events).capturedTraffic = capturesOf ((collected events).take (closuresRun events))

theorem Filed.collect {events : List CollectorEvent} (filed : Filed events) (scheme host : Bytes)
    (req resp : MessageBase) : Filed (events ++ [.collect scheme host req resp]) := by
  have covered := closuresRun_le events
  refine ⟨?_, ?_, ?_⟩
  · rw [run_concat, collected_collect, closuresRun_collect, step, filed.made, filed.posted,
      List.drop_append_of_le_length covered]
  · rw [run_concat, collected_collect, step, filed.made, List.length_append]
    rfl
  · rw [run_concat, collected_collect, closuresRun_collect, step, filed.traffic,
      List.take_append_of_le_length covered]

theorem Filed.runPosted {events : List CollectorEvent} (filed : Filed events) :
    Filed (events ++ [.runPosted]) := by
  by_cases more : closuresRun events < (collected events).length
  · have waiting : (run events).posted = (collected events)[closuresRun events] ::
        (collected events).drop (closuresRun events + 1) := by
      rw [filed.posted, List.drop_eq_getElem_cons more]
    have ran : run (events ++ [.runPosted]) = { run events with
        capturedTraffic := file (run events).capturedTraffic (collected events)[closuresRun events]
        posted := (collected events).drop (closuresRun events + 1) } := by
      rw [run_concat, step, waiting]
    have counted : closuresRun (events ++ [.runPosted]) = closuresRun events + 1 := by
      rw [closuresRun_runPosted, Nat.min_eq_left more]
    refine ⟨?_, ?_, ?_⟩
    · rw [ran, collected_runPosted, counted]
    · rw [ran, collected_runPosted]
      exact filed.made
    · rw [ran, collected_runPosted, counted, filed.traffic, file_capturesOf,
        List.take_append_getElem more]
  · have all : closuresRun events = (collected events).length :=
      Nat.le_antisymm (closuresRun_le events) (Nat.le_of_not_lt more)
    have counted : closuresRun (events ++ [.runPosted]) = closuresRun events := by
      rw [closuresRun_runPosted, all, Nat.min_eq_right (Nat.le_succ _)]
    have still : run (events ++ [.runPosted]) = run events := by
      have waiting : (run events).posted = [] := by
        rw [filed.posted, all, List.drop_length]
      rw [run_concat, step, waiting]
    refine ⟨?_, ?_, ?_⟩
    · rw [still, collected_runPosted, counted, filed.posted]
    · rw [still, collected_runPosted, filed.made]
    · rw [still, collected_runPosted, counted, filed.traffic]

end CaptureCollector

end Marvin.Collector
