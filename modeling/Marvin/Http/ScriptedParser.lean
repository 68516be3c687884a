import Marvin.Http.HttpParser

namespace Marvin.Http

open Marvin.Data

/-! # A parser for given sample messages

An instance of the http_parser interface that recognises a fixed list of
messages, each written as its bytes with the callbacks they give rise to, and
fails on any other text.  It shows that the assumptions made of http_parser
are consistent, and stands for it in runs on those messages.
-/

def Event.push (event : Event) : List Event → List Event
  | [] => [event]
  | next :: rest =>
      match event.join next with
      | some joined => joined :: rest
      | none => event :: next :: rest

/-- Joins the data callbacks of one run that fall into one buffer. -/
def coalesce (events : List Event) : List Event :=
  events.foldr Event.push []

theorem Event.join_assoc {first second joined : Event} (same : first.join second = some joined)
    (event : Event) :
    (event.join joined = none ∧ event.join first = none) ∨
      ∃ left whole, event.join first = some left ∧ event.join joined = some whole ∧
        left.join second = some whole := by
  cases first <;> cases second <;> simp only [Event.join, reduceCtorEq] at same
  case status.status code _ code' _ =>
      split at same
      · cases same
        cases event <;> simp_all [Event.join]
        exact (eq_or_ne _ _).symm
      · cases same
  all_goals
    cases same
    cases event <;> simp [Event.join]

theorem Event.push_cut (event : Event) {coarse fine : List Event} (cut : Cut coarse fine) :
    Cut (event.push coarse) (event.push fine) := by
  cases cut with
  | @intro first second joined before after same =>
      cases before with
      | nil =>
          rcases Event.join_assoc same event with ⟨apart, distinct⟩ | ⟨left, whole, near, far, rest⟩
          · simpa [Event.push, apart, distinct] using Cut.intro [event] after same
          · simpa [Event.push, near, far] using Cut.intro [] after rest
      | cons head before =>
          cases touching : event.join head with
          | none => simpa [Event.push, touching] using Cut.intro (event :: head :: before) after same
          | some merged => simpa [Event.push, touching] using Cut.intro (merged :: before) after same

theorem Event.push_finer (event : Event) {coarse fine : List Event} (finer : Finer coarse fine) :
    Finer (event.push coarse) (event.push fine) := by
  induction finer with
  | refl => exact .refl
  | tail _ cut ih => exact ih.tail (event.push_cut cut)

theorem Event.push_append (event : Event) (left right : List Event) :
    Finer (event.push (left ++ right)) (event.push left ++ right) := by
  cases left with
  | cons head rest =>
      cases touching : event.join head <;> simp [Event.push, touching, Relation.ReflTransGen.refl]
  | nil =>
      cases right with
      | nil => exact .refl
      | cons head rest =>
          cases touching : event.join head with
          | none => simp [Event.push, touching, Relation.ReflTransGen.refl]
          | some joined =>
              simpa [Event.push, touching] using
                Relation.ReflTransGen.single (Cut.intro [] rest touching)

theorem coalesce_append (left right : List Event) :
    Finer (coalesce (left ++ right)) (coalesce left ++ coalesce right) := by
  induction left with
  | nil => exact .refl
  | cons event rest ih => exact (event.push_finer ih).trans (event.push_append _ _)

theorem Event.join_data {first second joined : Event} (same : first.join second = some joined) :
    Event.messageComplete ≠ first ∧ Event.messageComplete ≠ second ∧
      Event.messageComplete ≠ joined := by
  cases first <;> cases second <;> simp [Event.join] at same ⊢
  case status.status => rw [← same.2]; simp
  all_goals rw [← same]; simp

theorem Event.messageComplete_mem_push (event : Event) (events : List Event) :
    .messageComplete ∈ event.push events ↔ .messageComplete = event ∨ .messageComplete ∈ events := by
  cases events with
  | nil => simp [Event.push]
  | cons next rest =>
      cases touching : event.join next with
      | none => simp [Event.push, touching]
      | some joined =>
          obtain ⟨first, second, whole⟩ := Event.join_data touching
          simp [Event.push, touching, first, second, whole]

theorem messageComplete_mem_coalesce (events : List Event) :
    .messageComplete ∈ coalesce events ↔ .messageComplete ∈ events := by
  induction events with
  | nil => rfl
  | cons event rest ih =>
      rw [List.mem_cons, ← ih]
      exact Event.messageComplete_mem_push event _

structure ScriptByte where
  byte : UInt8
  events : List Event
deriving DecidableEq, Repr

abbrev Script := List ScriptByte

inductive ScriptState where
  | reading (candidates : List Script)
  | paused
  | failed (code : Nat)
deriving DecidableEq, Repr

namespace ScriptState

def errno : ScriptState → HttpErrno
  | .reading _ => .ok
  | .paused => .paused
  | .failed code => .failed code

/-- The candidates that go on with the byte. -/
def advance (byte : UInt8) (candidates : List Script) : List (List Event × Script) :=
  candidates.filterMap (fun script =>
    match script with
    | [] => none
    | first :: rest =>
        if first.byte = byte then some (first.events.filter (· ≠ .messageComplete), rest) else none)

def next (byte : UInt8) (candidates : List Script) : ScriptState × List Event :=
  match advance byte candidates with
  | [] => (.failed 1, [])
  | (events, []) :: _ => (.paused, events ++ [.messageComplete])
  | (events, script) :: others => (.reading (script :: others.map Prod.snd), events)

def feed : Bytes → ScriptState → Execution ScriptState
  | byte :: data, .reading candidates =>
      match next byte candidates with
      | (.reading remaining, events) =>
          let later := feed data (.reading remaining)
          ⟨later.state, later.nparsed + 1, events ++ later.events⟩
      | (.paused, events) => ⟨.paused, 1, events⟩
      | (.failed code, _) => ⟨.failed code, 0, []⟩
  | _, state => ⟨state, 0, []⟩

theorem feed_stopped {state : ScriptState} (stopped : state.errno ≠ .ok) (data : Bytes) :
    feed data state = ⟨state, 0, []⟩ := by
  cases state with
  | reading => exact absurd rfl stopped
  | paused | failed => cases data <;> rfl

theorem feed_append (state : ScriptState) (first second : Bytes) :
    feed (first ++ second) state =
      if (feed first state).state.errno = .ok then
        let left := feed first state
        let right := feed second left.state
        ⟨right.state, left.nparsed + right.nparsed, left.events ++ right.events⟩
      else feed first state := by
  induction first generalizing state with
  | nil =>
      cases state with
      | reading => simp [feed, errno]
      | paused | failed => simp [feed, errno]
  | cons byte first ih =>
      cases state with
      | paused | failed => rfl
      | reading candidates =>
          rw [List.cons_append, feed, feed]
          match next byte candidates with
          | (.reading remaining, events) =>
              simp only [ih]
              split <;> simp [Nat.add_right_comm]
          | (.paused, events) => rfl
          | (.failed code, _) => rfl

theorem feed_nparsed_le (state : ScriptState) (data : Bytes) :
    (feed data state).nparsed ≤ data.length := by
  induction data generalizing state with
  | nil => simp [feed]
  | cons byte data ih =>
      cases state with
      | paused | failed => simp [feed]
      | reading candidates =>
          rw [feed]
          match next byte candidates with
          | (.reading remaining, events) => simpa using ih _
          | (.paused, events) => simp
          | (.failed code, _) => simp

theorem feed_whole {state : ScriptState} {data : Bytes}
    (going : (feed data state).state.errno = .ok) : (feed data state).nparsed = data.length := by
  induction data generalizing state with
  | nil => simp [feed]
  | cons byte data ih =>
      cases state with
      | paused | failed => cases going
      | reading candidates =>
          rw [feed] at going ⊢
          revert going
          match next byte candidates with
          | (.reading remaining, events) =>
              intro going
              simpa using ih going
          | (.paused, events) => exact nofun
          | (.failed code, _) => exact nofun

theorem feed_offending {state : ScriptState} {data : Bytes} {code : Nat} (start : state.errno = .ok)
    (failed : (feed data state).state.errno = .failed code) :
    (feed data state).nparsed < data.length := by
  induction data generalizing state with
  | nil =>
      have going : (feed [] state).state = state := by simp [feed]
      rw [going, start] at failed
      cases failed
  | cons byte data ih =>
      cases state with
      | paused | failed => cases start
      | reading candidates =>
          rw [feed] at failed ⊢
          revert failed
          match next byte candidates with
          | (.reading remaining, events) =>
              intro failed
              simpa using ih rfl failed
          | (.paused, events) => exact nofun
          | (.failed code, _) => simp

theorem advance_events {byte : UInt8} {candidates : List Script} {events : List Event}
    {script : Script} (member : (events, script) ∈ advance byte candidates) :
    .messageComplete ∉ events := by
  simp only [advance, List.mem_filterMap] at member
  obtain ⟨candidate, _, kept⟩ := member
  cases candidate with
  | nil => cases kept
  | cons first rest =>
      simp only at kept
      split at kept
      · cases kept
        simp
      · cases kept

theorem next_completed (byte : UInt8) (candidates : List Script) :
    (next byte candidates).1 = .paused ↔ .messageComplete ∈ (next byte candidates).2 := by
  rw [next]
  match kept : advance byte candidates with
  | [] => simp
  | (events, []) :: _ => simp
  | (events, script :: rest) :: others =>
      have clean := advance_events (kept ▸ List.mem_cons_self)
      simp [clean]

theorem feed_completed {state : ScriptState} (data : Bytes) (start : state.errno = .ok) :
    (feed data state).state.errno = .paused ↔ .messageComplete ∈ (feed data state).events := by
  induction data generalizing state with
  | nil => simp [feed, start]
  | cons byte data ih =>
      cases state with
      | paused | failed => cases start
      | reading candidates =>
          have byte := next_completed byte candidates
          revert byte
          rw [feed]
          match next _ candidates with
          | (.reading remaining, events) =>
              intro byte
              have quiet : .messageComplete ∉ events := by simpa using byte
              simpa [quiet] using ih rfl
          | (.paused, events) =>
              intro byte
              simpa [errno] using byte
          | (.failed code, _) => simp [errno]

end ScriptState

/-- Without data the parser is told of the end of the input: between messages
that is in order, inside one it is an error, reported with the count one. -/
def scripted (scripts : List Script) : HttpParser ScriptState where
  init := .reading scripts
  errno := ScriptState.errno
  execute state data :=
    if data = [] ∧ state.errno = .ok then
      if state = .reading scripts then ⟨state, 0, []⟩ else ⟨.failed 2, 1, []⟩
    else
      let run := ScriptState.feed data state
      ⟨run.state, run.nparsed, coalesce run.events⟩

namespace Script

def silent (text : Bytes) : Script :=
  text.map (fun byte => ⟨byte, []⟩)

def data (event : Bytes → Event) (text : Bytes) : Script :=
  text.map (fun byte => ⟨byte, [event [byte]]⟩)

/-- Bytes of which the last one makes a callback. -/
def closing (text : Bytes) (event : Event) : Script :=
  silent text.dropLast ++ (text.getLast?.toList.map fun byte => ⟨byte, [event]⟩)

def get : Script :=
  closing (ascii "G") .messageBegin ++ silent (ascii "ET ") ++ data .url (ascii "/") ++
    closing (ascii " HTTP/1.1\r\n\r\n") (.headersComplete (.other 1) 1 1)

/-- `POST /a HTTP/1.1` with two header lines and a body of three bytes. -/
def post : Script :=
  closing (ascii "P") .messageBegin ++ silent (ascii "OST ") ++ data .url (ascii "/a") ++
    silent (ascii " HTTP/1.1\r\n") ++ data .headerField (ascii "Host") ++ silent (ascii ": ") ++
    data .headerValue (ascii "h.x") ++ silent (ascii "\r\n") ++
    data .headerField (ascii "Content-Length") ++ silent (ascii ": ") ++
    data .headerValue (ascii "3") ++
    closing (ascii "\r\n\r\n") (.headersComplete (.other 3) 1 1) ++ data .body (ascii "abc")

end Script

theorem scripted_execute (scripts : List Script) (state : ScriptState) {data : Bytes}
    (some : data ≠ []) :
    (scripted scripts).execute state data =
      ⟨(ScriptState.feed data state).state, (ScriptState.feed data state).nparsed,
        coalesce (ScriptState.feed data state).events⟩ := by
  simp [scripted, some]

theorem scripted_stopping (scripts : List Script) : (scripted scripts).Stopping where
  fresh := rfl
  bounded state data some := by
    rw [scripted_execute _ _ some]
    exact ScriptState.feed_nparsed_le state data
  whole state data going := by
    by_cases none : data = []
    · subst none
      simp only [scripted] at going ⊢
      split at going
      · split at going
        · simp_all
        · cases going
      · simp_all [ScriptState.feed_whole going]
    · rw [scripted_execute _ _ none] at going ⊢
      exact ScriptState.feed_whole going
  offending state data code some start failed := by
    rw [scripted_execute _ _ some] at failed ⊢
    exact ScriptState.feed_offending start failed
  completed state data start := by
    by_cases none : data = []
    · subst none
      by_cases first : state = .reading scripts
      · simp [scripted, first, ScriptState.errno]
      · have going : state.errno = .ok := start
        simp only [scripted, first, going, and_self, if_true, if_false]
        simp [ScriptState.errno]
    · rw [scripted_execute _ _ none, messageComplete_mem_coalesce]
      exact ScriptState.feed_completed data start
  sticky state data stopped := by
    have halted : state.errno ≠ .ok := stopped
    simp [scripted, halted, ScriptState.feed_stopped halted, coalesce]

theorem scripted_splitting (scripts : List Script) : (scripted scripts).Splitting where
  stopped state first second some halted := by
    have more : first ++ second ≠ [] := by simp [some]
    rw [scripted_execute _ _ some] at halted ⊢
    have stop : (ScriptState.feed first state).state.errno ≠ .ok := halted
    rw [scripted_execute _ _ more, ScriptState.feed_append, if_neg stop]
  resumed state first second some more going := by
    have whole : first ++ second ≠ [] := by simp [some]
    rw [scripted_execute _ _ some] at going
    have onward : (ScriptState.feed first state).state.errno = .ok := going
    simp only [scripted_execute _ _ some, scripted_execute _ _ more, scripted_execute _ _ whole,
      ScriptState.feed_append, if_pos onward]
    exact ⟨trivial, trivial, fun _ => coalesce_append _ _⟩

end Marvin.Http
