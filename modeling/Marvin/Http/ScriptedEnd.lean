import Marvin.Http.EndOfInput
import Marvin.Http.ScriptedParser

namespace Marvin.Http

open Marvin.Data

/-! # The end of a sample message

The parser for a single sample message, and places in it where the end of the input
completes it.  The assumptions about the end of the input hold when the first byte
of the sample makes a callback.
-/

def Script.reports (script : Script) : List Event :=
  script.flatMap (fun byte => byte.events.filter (· ≠ .messageComplete))

theorem Script.reports_take_add (script : Script) (first second : Nat) :
    Script.reports (script.take (first + second)) =
      Script.reports (script.take first) ++ Script.reports ((script.drop first).take second) := by
  simp [Script.reports, List.take_add]

theorem Script.reports_take_succ (first : ScriptByte) (rest : Script) (count : Nat) :
    Script.reports (List.take (count + 1) (first :: rest)) =
      first.events.filter (· ≠ .messageComplete) ++ Script.reports (rest.take count) := by
  simp [Script.reports]

namespace ScriptState

theorem next_single (byte : UInt8) (script : Script) :
    next byte [script] = (.failed 1, []) ∨
      ∃ first rest, script = first :: rest ∧
        next byte [script] = if rest = [] then
          (.paused, first.events.filter (· ≠ .messageComplete) ++ [.messageComplete])
        else (.reading [rest], first.events.filter (· ≠ .messageComplete)) := by
  cases script with
  | nil => exact .inl rfl
  | cons first rest =>
      by_cases same : first.byte = byte
      · refine .inr ⟨first, rest, rfl, ?_⟩
        cases rest with
        | nil => simp [next, advance, same]
        | cons second rest => simp [next, advance, same]
      · exact .inl (by simp [next, advance, same])

theorem feed_single (data : Bytes) (script : Script) :
    ∃ count last, count ≤ data.length ∧ (last = [] ∨ last = [.messageComplete]) ∧
      (feed data (.reading [script])).events = Script.reports (script.take count) ++ last ∧
      ((feed data (.reading [script])).state.errno = .ok →
        (feed data (.reading [script])).state = .reading [script.drop data.length] ∧
          count = data.length ∧ last = [] ∧ (script ≠ [] → data.length < script.length)) := by
  induction data generalizing script with
  | nil =>
      refine ⟨0, [], Nat.le_refl _, .inl rfl, by simp [feed, Script.reports], fun _ => ?_⟩
      exact ⟨rfl, rfl, rfl, List.length_pos_iff.mpr⟩
  | cons byte data ih =>
      rcases next_single byte script with failed | ⟨first, rest, rfl, matched⟩
      · refine ⟨0, [], Nat.zero_le _, .inl rfl, ?_, fun going => ?_⟩
        · simp [feed, failed, Script.reports]
        · rw [feed, failed] at going
          cases going
      · by_cases none : rest = []
        · subst none
          rw [if_pos rfl] at matched
          refine ⟨1, [.messageComplete], by simp, .inr rfl, ?_, fun going => ?_⟩
          · simp [feed, matched, Script.reports]
          · rw [feed, matched] at going
            cases going
        · rw [if_neg none] at matched
          obtain ⟨count, last, bound, kind, events, onward⟩ := ih rest
          refine ⟨count + 1, last, by simpa using bound, kind, ?_, fun going => ?_⟩
          · rw [feed, matched, Script.reports_take_succ, List.append_assoc, ← events]
          · have goes : (feed data (.reading [rest])).state.errno = .ok := by
              rwa [feed, matched] at going
            obtain ⟨state, whole, ends, room⟩ := onward goes
            refine ⟨?_, by rw [whole]; rfl, ends, fun _ => ?_⟩
            · rw [feed, matched]
              exact state
            · simpa using room none

end ScriptState

/-! ## What joining callbacks keeps -/

theorem namedFrom_push (event : Event) (events : List Event) (rest : List Event) (seen : Bool) :
    namedFrom seen (event.push events ++ rest) = namedFrom seen (event :: (events ++ rest)) := by
  cases events with
  | nil => rfl
  | cons following later =>
      cases touching : event.join following with
      | none => simp [Event.push, touching]
      | some joined =>
          simp only [Event.push, touching, List.cons_append]
          cases event <;> cases following <;> simp only [Event.join, reduceCtorEq] at touching
          case status.status => split at touching <;> cases touching; rfl
          case headerValue.headerValue => cases touching; cases seen <;> rfl
          all_goals cases touching; rfl

theorem namedFrom_cons_congr {first second : List Event}
    (same : ∀ seen, namedFrom seen first = namedFrom seen second) (event : Event) (seen : Bool) :
    namedFrom seen (event :: first) = namedFrom seen (event :: second) := by
  cases event <;> simp only [namedFrom, same]

theorem namedFrom_append_congr {first second : List Event}
    (same : ∀ seen, namedFrom seen first = namedFrom seen second) (before : List Event)
    (seen : Bool) : namedFrom seen (before ++ first) = namedFrom seen (before ++ second) := by
  induction before generalizing seen with
  | nil => exact same seen
  | cons event rest ih => exact namedFrom_cons_congr ih event seen

theorem namedFrom_coalesce (events rest : List Event) (seen : Bool) :
    namedFrom seen (coalesce events ++ rest) = namedFrom seen (events ++ rest) := by
  induction events generalizing seen with
  | nil => rfl
  | cons event later ih =>
      have pushed := namedFrom_push event (coalesce later) rest seen
      exact pushed.trans (namedFrom_cons_congr ih event seen)

theorem namedFrom_of_append {seen : Bool} {first second : List Event}
    (named : namedFrom seen (first ++ second) = true) : namedFrom seen first = true := by
  induction first generalizing seen with
  | nil => rfl
  | cons event rest ih =>
      cases event with
      | headerValue piece =>
          simp only [List.cons_append, namedFrom, Bool.and_eq_true] at named ⊢
          exact ⟨named.1, ih named.2⟩
      | _ => exact ih named

def bodySize (events : List Event) : Nat :=
  (events.map fun event => match event with
    | .body piece => piece.length
    | _ => 0).sum

@[simp] theorem bodySize_append (first second : List Event) :
    bodySize (first ++ second) = bodySize first + bodySize second := by
  simp [bodySize]

theorem bodySize_push (event : Event) (events : List Event) :
    bodySize (event.push events) = bodySize (event :: events) := by
  cases events with
  | nil => rfl
  | cons following later =>
      cases touching : event.join following with
      | none => simp [Event.push, touching]
      | some joined =>
          simp only [Event.push, touching]
          cases event <;> cases following <;> simp only [Event.join, reduceCtorEq] at touching
          case status.status => split at touching <;> cases touching; simp [bodySize]
          all_goals cases touching; simp [bodySize, Nat.add_assoc]

theorem bodySize_coalesce (events : List Event) : bodySize (coalesce events) = bodySize events := by
  induction events with
  | nil => rfl
  | cons event rest ih =>
      have pushed := bodySize_push event (coalesce rest)
      simp only [bodySize, List.map_cons, List.sum_cons] at pushed ih ⊢
      rw [ih] at pushed
      exact pushed

theorem le_bodySize {events : List Event} {piece : Bytes} (member : .body piece ∈ events) :
    piece.length ≤ bodySize events := by
  obtain ⟨before, after, rfl⟩ := List.append_of_mem member
  simp [bodySize]
  omega

theorem bodySize_filter (keep : Event → Bool) (events : List Event) :
    bodySize (events.filter keep) ≤ bodySize events := by
  induction events with
  | nil => exact Nat.le_refl _
  | cons event rest ih =>
      rw [List.filter_cons]
      split
      · simpa [bodySize] using ih
      · simp only [bodySize, List.map_cons, List.sum_cons] at ih ⊢
        omega

theorem bodySize_reports_le {script : Script} (thin : ∀ byte ∈ script, bodySize byte.events ≤ 1) :
    bodySize script.reports ≤ script.length := by
  induction script with
  | nil => exact Nat.le_refl _
  | cons byte rest ih =>
      have first := thin byte List.mem_cons_self
      have later := ih (fun other member => thin other (List.mem_cons_of_mem _ member))
      have kept := bodySize_filter (fun event => decide (event ≠ .messageComplete)) byte.events
      rw [Script.reports, List.flatMap_cons, bodySize_append, List.length_cons]
      rw [Script.reports] at later
      omega

theorem coalesce_ne_nil {events : List Event} (some : events ≠ []) : coalesce events ≠ [] := by
  cases events with
  | nil => exact absurd rfl some
  | cons event rest =>
      change event.push (coalesce rest) ≠ []
      cases coalesce rest with
      | nil => exact List.cons_ne_nil _ _
      | cons following later =>
          cases touching : event.join following <;> simp [Event.push, touching]

/-! ## The parser -/

/-- In the states that `ended` selects, the end of the input completes the message. -/
def scriptedUntilEof (script : Script) (ended : ScriptState → Bool) : HttpParser ScriptState where
  init := .reading [script]
  errno := ScriptState.errno
  execute state data :=
    if data = [] ∧ state.errno = .ok ∧ ended state = true then ⟨.paused, 0, [.messageComplete]⟩
    else (scripted [script]).execute state data

/-- A sample message as http_parser would report it. -/
structure Script.Sample (script : Script) : Prop where
  opens : Script.reports (script.take 1) ≠ []
  named : namedFrom false script.reports = true
  thin : ∀ byte ∈ script, bodySize byte.events ≤ 1

instance (script : Script) : Decidable script.Sample :=
  decidable_of_iff (Script.reports (script.take 1) ≠ [] ∧ namedFrom false script.reports = true ∧
      ∀ byte ∈ script, bodySize byte.events ≤ 1)
    ⟨fun ⟨opens, named, thin⟩ => ⟨opens, named, thin⟩,
      fun sample => ⟨sample.opens, sample.named, sample.thin⟩⟩

variable {script : Script} {ended : ScriptState → Bool} {state : ScriptState} {data : Bytes}

theorem scriptedUntilEof_execute (some : data ≠ []) :
    (scriptedUntilEof script ended).execute state data = (scripted [script]).execute state data := by
  simp [scriptedUntilEof, some]

theorem scriptedUntilEof_stopping (script : Script) (ended : ScriptState → Bool) :
    (scriptedUntilEof script ended).Stopping where
  fresh := rfl
  bounded state data some := by
    rw [scriptedUntilEof_execute some]
    exact (scripted_stopping [script]).bounded state data some
  whole state data going := by
    simp only [scriptedUntilEof] at going ⊢
    split at going
    · cases going
    · next other =>
        rw [if_neg other]
        exact (scripted_stopping [script]).whole state data going
  offending state data code some start failed := by
    rw [scriptedUntilEof_execute some] at failed ⊢
    exact (scripted_stopping [script]).offending state data code some start failed
  completed state data start := by
    simp only [scriptedUntilEof]
    split
    · simp [ScriptState.errno]
    · exact (scripted_stopping [script]).completed state data start
  sticky state data stopped := by
    have halted : ¬(data = [] ∧ state.errno = .ok ∧ ended state = true) := fun live =>
      stopped live.2.1
    simp only [scriptedUntilEof, if_neg halted]
    exact (scripted_stopping [script]).sticky state data stopped

theorem scriptedUntilEof_splitting (script : Script) (ended : ScriptState → Bool) :
    (scriptedUntilEof script ended).Splitting where
  stopped state first second some halted := by
    rw [scriptedUntilEof_execute some] at halted ⊢
    rw [scriptedUntilEof_execute (List.append_ne_nil_of_left_ne_nil some _)]
    exact (scripted_splitting [script]).stopped state first second some halted
  resumed state first second some more going := by
    rw [scriptedUntilEof_execute some] at going
    simp only [scriptedUntilEof_execute some, scriptedUntilEof_execute more,
      scriptedUntilEof_execute (List.append_ne_nil_of_left_ne_nil some _)]
    exact (scripted_splitting [script]).resumed state first second some more going

theorem heard_script (sample : script.Sample) {events : List Event}
    (heard : Heard (scriptedUntilEof script ended) state events) :
    ∃ count, count < script.length ∧ state = .reading [script.drop count] ∧
      (count = 0 ↔ events = []) ∧
      ∀ rest seen, namedFrom seen (events ++ rest) =
        namedFrom seen (Script.reports (script.take count) ++ rest) := by
  have some : script ≠ [] := fun none => sample.opens (by simp [none, Script.reports])
  induction heard with
  | init => exact ⟨0, List.length_pos_iff.mpr some, rfl, by simp, fun _ _ => rfl⟩
  | @more before earlier data heard filled going ih =>
      obtain ⟨count, room, rfl, first, names⟩ := ih
      rw [scriptedUntilEof_execute filled, scripted_execute _ _ filled] at going ⊢
      obtain ⟨taken, last, _, _, report, onward⟩ := ScriptState.feed_single data (script.drop count)
      obtain ⟨state, rfl, rfl, bound⟩ := onward going
      have left : script.drop count ≠ [] := by simpa using room
      have longer := bound left
      rw [List.length_drop] at longer
      refine ⟨count + data.length, by omega, ?_, ?_, fun rest seen => ?_⟩
      · change (ScriptState.feed data _).state = _
        rw [state, List.drop_drop]
      · have positive := List.length_pos_iff.mpr filled
        refine iff_of_false (by omega) ?_
        by_cases start : count = 0
        · subst start
          refine List.append_ne_nil_of_right_ne_nil _ (coalesce_ne_nil ?_)
          obtain ⟨more, same⟩ := Nat.exists_eq_add_of_le positive
          rw [report, same, List.drop_zero, Script.reports_take_add]
          simp [sample.opens]
        · exact List.append_ne_nil_of_left_ne_nil (fun none => start (first.mpr none)) _
      · change namedFrom seen (earlier ++ coalesce (ScriptState.feed data _).events ++ rest) = _
        rw [List.append_assoc, names, report, List.append_nil, Script.reports_take_add,
          List.append_assoc]
        exact namedFrom_append_congr (namedFrom_coalesce _ rest) _ seen

theorem scriptedUntilEof_reporting (sample : script.Sample) :
    (scriptedUntilEof script ended).Reporting where
  named heard := by
    obtain ⟨count, _, _, _, names⟩ := heard_script sample heard
    have whole := sample.named
    rw [← List.take_append_drop count script, Script.reports, List.flatMap_append] at whole
    have same := names [] false
    rw [List.append_nil, List.append_nil] at same
    exact same.trans (namedFrom_of_append whole)
  covered data piece heard member := by
    obtain ⟨count, _, rfl, _⟩ := heard_script sample heard
    by_cases none : data = []
    · subst none
      simp only [scriptedUntilEof, scripted] at member
      split at member
      · simp at member
      · split at member
        · split at member <;> simp at member
        · simp [ScriptState.feed, coalesce] at member
    · rw [scriptedUntilEof_execute none, scripted_execute _ _ none] at member
      obtain ⟨taken, last, bound, kind, report, _⟩ := ScriptState.feed_single data (script.drop count)
      have size := le_bodySize member
      rw [bodySize_coalesce, report, bodySize_append] at size
      have closing : bodySize last = 0 := by rcases kind with rfl | rfl <;> rfl
      have thin := @bodySize_reports_le ((script.drop count).take taken)
        (fun byte inside => sample.thin byte (List.mem_of_mem_drop (List.mem_of_mem_take inside)))
      have short := List.length_take_le taken (script.drop count)
      omega

theorem scriptedUntilEof_ending (sample : script.Sample)
    (inside : ended (.reading [script]) = false) :
    (scriptedUntilEof script ended).Ending (fun state => ended state = true) where
  opened heard waits := by
    obtain ⟨count, _, rfl, first, _⟩ := heard_script sample heard
    intro none
    obtain rfl := first.mpr none
    rw [List.drop_zero, inside] at waits
    cases waits
  completes heard waits := by
    obtain ⟨count, _, rfl, _⟩ := heard_script sample heard
    simp [scriptedUntilEof, ScriptState.errno, waits]
  fails heard outside some := by
    obtain ⟨count, room, rfl, first, _⟩ := heard_script sample heard
    have later : count ≠ 0 := fun start => some (first.mp start)
    have moved : script.drop count ≠ script := by
      intro same
      have length := congrArg List.length same
      rw [List.length_drop] at length
      omega
    simp [scriptedUntilEof, scripted, ScriptState.errno, outside, moved]
  begins heard := by
    obtain ⟨count, _, rfl, first, _⟩ := heard_script sample heard
    obtain rfl := first.mpr rfl
    simp [scriptedUntilEof, scripted, ScriptState.errno, inside]

/-- `HTTP/1.0 200 OK` without header lines, and the first bytes of its body. -/
def Script.untilEof : Script :=
  closing (ascii "H") .messageBegin ++ silent (ascii "TTP/1.0 200 ") ++
    Script.data (.status 200) (ascii "OK") ++
    closing (ascii "\r\n\r\n") (.headersComplete (.other 0) 1 0) ++
    Script.data .body (ascii "abc")

def inBody (state : ScriptState) : Bool :=
  decide (state ∈ [.reading [Script.data .body (ascii "abc")],
    .reading [Script.data .body (ascii "bc")], .reading [Script.data .body (ascii "c")]])

end Marvin.Http
