import Mathlib.Logic.Relation
import Marvin.Http.MessageBase

namespace Marvin.Http

open Marvin.Data

/-! # The http_parser library

http_parser is not part of the repository.  It enters as a parameter: an
initial state (`http_parser_init` with `HTTP_BOTH`), the error number of a
state, and one call of `http_parser_execute` with the settings of
`Parser::p_initialize`.  Every installed callback returns zero and the only one
that acts on the C parser is `on_message_complete`, which pauses it, so a call
is described by the state it leaves, the count it returns and the callbacks it
made.  Data lengths are below `2^31`, where the casts to `int` are exact.
-/

inductive HttpErrno where
  | ok
  | paused
  | failed (code : Nat)
deriving DecidableEq, Repr

/-- One callback, with the parts of the C parser that the code reads in it. -/
inductive Event where
  | messageBegin
  | url (piece : Bytes)
  | status (code : Nat) (piece : Bytes)
  | headerField (piece : Bytes)
  | headerValue (piece : Bytes)
  | headersComplete (method : HttpMethod) (major minor : Nat)
  | body (piece : Bytes)
  | chunkHeader
  | chunkComplete
  | messageComplete
deriving DecidableEq, Repr

structure Execution (σ : Type) where
  state : σ
  nparsed : Nat
  events : List Event
deriving DecidableEq, Repr

structure HttpParser (σ : Type) where
  init : σ
  errno : σ → HttpErrno
  execute : σ → Bytes → Execution σ

/-- One data callback that covers the bytes of two consecutive ones of the
same run. -/
def Event.join : Event → Event → Option Event
  | .url first, .url second => some (.url (first ++ second))
  | .status code first, .status code' second =>
      if code = code' then some (.status code (first ++ second)) else none
  | .headerField first, .headerField second => some (.headerField (first ++ second))
  | .headerValue first, .headerValue second => some (.headerValue (first ++ second))
  | .body first, .body second => some (.body (first ++ second))
  | _, _ => none

/-- The second report differs from the first in one data callback, which it
makes in two pieces. -/
inductive Cut : List Event → List Event → Prop where
  | intro {first second joined : Event} (before after : List Event)
      (same : first.join second = some joined) :
      Cut (before ++ joined :: after) (before ++ first :: second :: after)

/-- The second report makes the same callbacks as the first, with any of its
data runs cut into more pieces. -/
abbrev Finer : List Event → List Event → Prop :=
  Relation.ReflTransGen Cut

theorem Cut.append_left (before : List Event) {coarse fine : List Event} (cut : Cut coarse fine) :
    Cut (before ++ coarse) (before ++ fine) := by
  cases cut with
  | intro inner after same =>
      simpa only [List.append_assoc] using Cut.intro (before ++ inner) after same

theorem Finer.append_left (before : List Event) {coarse fine : List Event}
    (finer : Finer coarse fine) : Finer (before ++ coarse) (before ++ fine) := by
  induction finer with
  | refl => exact .refl
  | tail _ cut ih => exact ih.tail (cut.append_left before)

namespace HttpParser

variable {σ : Type}

/-- When http_parser stops: at the offending byte of a parse error, after the
last byte of a message, and otherwise at the end of the data only; a stopped
parser stays as it is. -/
structure Stopping (http : HttpParser σ) : Prop where
  fresh : http.errno http.init = .ok
  bounded (state : σ) (data : Bytes) : data ≠ [] →
    (http.execute state data).nparsed ≤ data.length
  whole (state : σ) (data : Bytes) : http.errno (http.execute state data).state = .ok →
    (http.execute state data).nparsed = data.length
  offending (state : σ) (data : Bytes) (code : Nat) : data ≠ [] → http.errno state = .ok →
    http.errno (http.execute state data).state = .failed code →
    (http.execute state data).nparsed < data.length
  completed (state : σ) (data : Bytes) : http.errno state = .ok →
    (http.errno (http.execute state data).state = .paused ↔
      .messageComplete ∈ (http.execute state data).events)
  sticky (state : σ) (data : Bytes) : http.errno state ≠ .ok →
    http.execute state data = ⟨state, 0, []⟩

theorem Stopping.quiet {http : HttpParser σ} (stopping : http.Stopping) {state : σ} {data : Bytes}
    (before : http.errno state = .ok) (going : http.errno (http.execute state data).state = .ok) :
    .messageComplete ∉ (http.execute state data).events := by
  rw [← stopping.completed state data before, going]
  exact nofun

/-- How http_parser reports data that arrives in parts: a stop in the first
part does not depend on what follows, and without one the second part is
parsed from where the first left off.  Unless a parse error drops the run it
strikes, the callbacks are the same but for runs cut at the boundary. -/
structure Splitting (http : HttpParser σ) : Prop where
  stopped (state : σ) (first second : Bytes) : first ≠ [] →
    http.errno (http.execute state first).state ≠ .ok →
    http.execute state (first ++ second) = http.execute state first
  resumed (state : σ) (first second : Bytes) : first ≠ [] → second ≠ [] →
    http.errno (http.execute state first).state = .ok →
    let left := http.execute state first
    let right := http.execute left.state second
    (http.execute state (first ++ second)).state = right.state ∧
      (http.execute state (first ++ second)).nparsed = left.nparsed + right.nparsed ∧
      ((∀ code, http.errno right.state ≠ .failed code) →
        Finer (http.execute state (first ++ second)).events (left.events ++ right.events))

end HttpParser

end Marvin.Http
