import Marvin.Http.Segmentation

namespace Marvin.Http

open Marvin.Data Marvin.Buffer

/-! # A message in segments

A text that completes a message, given to `Parser::consume` one segment after
the other.  The callbacks for body data only fill the body, so a report is
handled by handling the rest of it, provided that every piece of the body can
be stored.
-/

def withoutBody (events : List Event) : List Event :=
  events.filter (fun event => match event with
    | .body _ => false
    | _ => true)

def bodyBytes (events : List Event) : Bytes :=
  (events.map fun event => match event with
    | .body piece => piece
    | _ => []).flatten

@[simp] theorem withoutBody_append (left right : List Event) :
    withoutBody (left ++ right) = withoutBody left ++ withoutBody right :=
  List.filter_append ..

@[simp] theorem bodyBytes_append (left right : List Event) :
    bodyBytes (left ++ right) = bodyBytes left ++ bodyBytes right := by
  simp [bodyBytes]

theorem withoutBody_cons {event : Event} (other : ∀ piece, event ≠ .body piece)
    (events : List Event) : withoutBody (event :: events) = event :: withoutBody events := by
  cases event with
  | body piece => exact absurd rfl (other piece)
  | _ => rfl

theorem bodyBytes_cons {event : Event} (other : ∀ piece, event ≠ .body piece)
    (events : List Event) : bodyBytes (event :: events) = bodyBytes events := by
  cases event with
  | body piece => exact absurd rfl (other piece)
  | _ => rfl

theorem body_not_mem_withoutBody (events : List Event) (piece : Bytes) :
    .body piece ∉ withoutBody events := by
  simp [withoutBody]

theorem Cut.withoutBody {coarse fine : List Event} (cut : Cut coarse fine) :
    Finer (withoutBody coarse) (withoutBody fine) := by
  cases cut with
  | @intro first second joined before after same =>
      cases first <;> cases second <;> simp only [Event.join, reduceCtorEq] at same
      case body.body =>
          cases same
          simp [Http.withoutBody, Relation.ReflTransGen.refl]
      case status.status code one code' two =>
          split at same
          · next equal =>
              cases same
              subst equal
              rw [withoutBody_append, withoutBody_append]
              exact .single (Cut.intro _ _ (by simp [Event.join]))
          · cases same
      all_goals
        cases same
        rw [withoutBody_append, withoutBody_append]
        exact .single (Cut.intro _ _ rfl)

theorem Cut.bodyBytes {coarse fine : List Event} (cut : Cut coarse fine) :
    bodyBytes coarse = bodyBytes fine := by
  cases cut with
  | @intro first second joined before after same =>
      rw [bodyBytes_append, bodyBytes_append]
      congr 1
      cases first <;> cases second <;> simp only [Event.join, reduceCtorEq] at same
      case status.status =>
          split at same
          · cases same
            rfl
          · cases same
      all_goals
        cases same
        simp [Http.bodyBytes]

theorem Finer.withoutBody {coarse fine : List Event} (finer : Finer coarse fine) :
    Finer (withoutBody coarse) (withoutBody fine) := by
  induction finer with
  | refl => exact .refl
  | tail _ cut ih => exact ih.trans cut.withoutBody

theorem Finer.bodyBytes {coarse fine : List Event} (finer : Finer coarse fine) :
    bodyBytes coarse = bodyBytes fine := by
  induction finer with
  | refl => rfl
  | tail _ cut ih => exact ih.trans cut.bodyBytes

namespace ParserContext

theorem handle_withBody {events : List Event} (other : ∀ piece, .body piece ∉ events)
    (context : ParserContext) (body : BufferChain) :
    (context.withBody body).handle events = (context.handle events).map (·.withBody body) := by
  induction events generalizing context with
  | nil => rfl
  | cons event rest ih =>
      have apart : ∀ piece, event ≠ .body piece := fun piece same => other piece (by simp [same])
      have later : ∀ piece, .body piece ∉ rest := fun piece member =>
        other piece (List.mem_cons_of_mem _ member)
      rw [handle_cons, handle_cons, dispatch_withBody apart]
      cases context.dispatch event with
      | error fault => rfl
      | ok middle => exact ih later middle

/-- A report is handled by handling its callbacks but those for the body, and
storing the body. -/
theorem handle_withoutBody {events : List Event} {context after : ParserContext}
    (built : context.message.body.Built)
    (small : ∀ piece, .body piece ∈ events → piece.length + 100 ≤ 1024 * 1024)
    (handled : context.handle (withoutBody events) = .ok after) :
    ∃ body, context.handle events = .ok (after.withBody body) ∧ body.Built ∧
      body.toString = context.message.body.toString ++ bodyBytes events := by
  induction events generalizing context after with
  | nil =>
      obtain rfl : context = after := Except.ok.inj handled
      exact ⟨context.message.body, rfl, built, by simp [bodyBytes]⟩
  | cons event rest ih =>
      have later : ∀ piece, .body piece ∈ rest → piece.length + 100 ≤ 1024 * 1024 :=
        fun piece member => small piece (List.mem_cons_of_mem _ member)
      by_cases data : ∃ piece, event = .body piece
      · obtain ⟨piece, rfl⟩ := data
        obtain ⟨body, appended, grown, text⟩ := onBodyData_ok built (small piece List.mem_cons_self)
        have rested : (context.withBody body).handle (withoutBody rest) =
            .ok (after.withBody body) := by
          rw [handle_withBody (body_not_mem_withoutBody rest),
            show context.handle (withoutBody rest) = .ok after from handled]
          rfl
        obtain ⟨whole, final, valid, stored⟩ := ih grown later rested
        refine ⟨whole, ?_, valid, ?_⟩
        · rw [handle_cons_of_ok appended, final]
          rfl
        · have added : (context.withBody body).message.body.toString =
              context.message.body.toString ++ piece := text
          rw [stored, added, List.append_assoc]
          rfl
      · have other : ∀ piece, event ≠ .body piece := fun piece same => data ⟨piece, same⟩
        rw [withoutBody_cons other] at handled
        obtain ⟨middle, first, rested⟩ := handle_cons_ok handled
        have kept := dispatch_body other first
        obtain ⟨body, final, valid, stored⟩ := ih (by rw [kept]; exact built) later rested
        refine ⟨body, ?_, valid, ?_⟩
        · rw [handle_cons_of_ok first, final]
        · rw [stored, kept, bodyBytes_cons other]

end ParserContext

namespace HttpParser

variable {σ : Type} (http : HttpParser σ)

/-- The text, parsed from the state, ends a message with its last byte. -/
structure Completes (state : σ) (text : Bytes) : Prop where
  some : text ≠ []
  stops : http.errno (http.execute state text).state = .paused
  count : (http.execute state text).nparsed = text.length

/-- The callbacks made for segments that are parsed one after the other. -/
def reports (state : σ) : List Bytes → List Event
  | [] => []
  | segment :: rest =>
      (http.execute state segment).events ++ reports (http.execute state segment).state rest

variable {http}

theorem Completes.part (stopping : http.Stopping) (splitting : http.Splitting) {state : σ}
    {first second : Bytes} (completes : http.Completes state (first ++ second)) (some : first ≠ [])
    (more : second ≠ []) :
    http.errno (http.execute state first).state = .ok ∧
      http.Completes (http.execute state first).state second ∧
      Finer (http.execute state (first ++ second)).events
        ((http.execute state first).events ++
          (http.execute (http.execute state first).state second).events) := by
  have going : http.errno (http.execute state first).state = .ok := by
    by_contra halted
    have same := splitting.stopped state first second some halted
    have count := completes.count
    have bound := stopping.bounded state first some
    have room := List.length_pos_iff.mpr more
    rw [same, List.length_append] at count
    omega
  obtain ⟨after, nparsed, finer⟩ := splitting.resumed state first second some more going
  have stops := completes.stops
  have count := completes.count
  rw [after] at stops
  rw [nparsed, stopping.whole state first going, List.length_append] at count
  exact ⟨going, ⟨more, stops, Nat.add_left_cancel count⟩, finer (by rw [stops]; exact nofun)⟩

/-- A report made in segments differs from the whole one in the cuts only. -/
theorem Completes.reports_finer (stopping : http.Stopping) (splitting : http.Splitting) {state : σ}
    {segments : List Bytes} (completes : http.Completes state segments.flatten)
    (some : ∀ segment ∈ segments, segment ≠ []) :
    Finer (http.execute state segments.flatten).events (http.reports state segments) := by
  induction segments generalizing state with
  | nil => exact absurd rfl completes.some
  | cons segment rest ih =>
      have first : segment ≠ [] := some segment List.mem_cons_self
      have later : ∀ segment ∈ rest, segment ≠ [] := fun segment member =>
        some segment (List.mem_cons_of_mem _ member)
      cases rest with
      | nil => simpa [reports] using Relation.ReflTransGen.refl
      | cons next others =>
          have more : (next :: others).flatten ≠ [] := by simp [later next List.mem_cons_self]
          rw [List.flatten_cons] at completes ⊢
          obtain ⟨_, remaining, finer⟩ := completes.part stopping splitting first more
          exact finer.trans ((ih remaining later).append_left _)

end HttpParser

namespace Parser

variable {σ : Type} (http : HttpParser σ)

def consumeAll (fuel : Nat) : Parser σ → List Bytes → Except Abort (Parser σ × List ReturnValue)
  | parser, [] => .ok (parser, [])
  | parser, segment :: rest => do
      let (parser, value) ← parser.consume http fuel segment false
      let (parser, values) ← consumeAll fuel parser rest
      return (parser, value :: values)

variable {http}

def Onward (value : ReturnValue) : Prop :=
  value.bytesRemaining = 0 ∧ (value.returnCode = .endOfData ∨ value.returnCode = .endOfHeader)

/-- The segments complete a message, and the parser can take in what is reported. -/
structure Ready (http : HttpParser σ) (parser : Parser σ) (segments : List Bytes)
    (after : ParserContext) : Prop where
  completes : http.Completes parser.machine segments.flatten
  filled : ∀ segment ∈ segments, segment ≠ []
  going : http.errno parser.machine = .ok
  unfinished : parser.context.messageDone = false
  handled : parser.context.handle (http.reports parser.machine segments) = .ok after

variable {parser : Parser σ} {segment : Bytes} {rest segments : List Bytes} {after : ParserContext}

theorem Ready.coherent (ready : Ready http parser segments after) : parser.Coherent http := by
  simp [Coherent, ready.unfinished, ready.going]

theorem Ready.part (stopping : http.Stopping) (splitting : http.Splitting)
    (ready : Ready http parser (segment :: rest) after) (more : rest ≠ []) :
    http.errno (http.execute parser.machine segment).state = .ok ∧
      http.Completes (http.execute parser.machine segment).state rest.flatten := by
  have text : rest.flatten ≠ [] := by
    obtain ⟨next, others, rfl⟩ := List.exists_cons_of_ne_nil more
    have filled := ready.filled next (List.mem_cons_of_mem _ List.mem_cons_self)
    simp [filled]
  have completes := ready.completes
  rw [List.flatten_cons] at completes
  obtain ⟨onward, remaining, _⟩ :=
    completes.part stopping splitting (ready.filled segment List.mem_cons_self) text
  exact ⟨onward, remaining⟩

/-- A segment is parsed to its end, and the code tells whether it was the last one. -/
theorem Ready.step (stopping : http.Stopping) (splitting : http.Splitting)
    (ready : Ready http parser (segment :: rest) after) :
    ∃ next : Parser σ, next.machine = (http.execute parser.machine segment).state ∧
      parser.context.handle (http.execute parser.machine segment).events = .ok next.context ∧
      { parser with started := true }.appendBytes http segment = .ok (next, segment.length) ∧
      next.codeAfter http = (if rest = [] then .endOfMessage
        else if next.context.headerDone then .endOfHeader else .endOfData) ∧
      (rest = [] → next = ⟨next.machine, after, true⟩) ∧
      (rest ≠ [] → Ready http next rest after) := by
  have handled := ready.handled
  rw [HttpParser.reports] at handled
  obtain ⟨middle, begun, handled⟩ := ParserContext.handle_append_ok handled
  by_cases last : rest = []
  · have completes := ready.completes
    rw [last, List.flatten_singleton] at completes
    refine ⟨⟨(http.execute parser.machine segment).state, middle, true⟩, rfl, begun, ?_, ?_,
      fun _ => ?_, fun more => absurd last more⟩
    · simp [appendBytes, begun, completes.count, bind, Except.bind, pure, Except.pure]
    · simp [codeAfter, completes.stops, last]
    · rw [last] at handled
      obtain rfl : middle = after := Except.ok.inj handled
      rfl
  · obtain ⟨onward, remaining⟩ := ready.part stopping splitting last
    have whole := stopping.whole parser.machine segment onward
    have unended : middle.messageDone = false :=
      ParserContext.handle_unfinished begun ready.unfinished (stopping.quiet ready.going onward)
    refine ⟨⟨(http.execute parser.machine segment).state, middle, true⟩, rfl, begun, ?_, ?_,
      fun none => absurd none last, fun _ => ⟨remaining, ?_, onward, unended, handled⟩⟩
    · simp [appendBytes, begun, whole, bind, Except.bind, pure, Except.pure]
    · simp [codeAfter, onward, last]
    · exact fun part member => ready.filled part (List.mem_cons_of_mem _ member)

/-- A text that completes a message is consumed segment by segment, if the
report is handled. -/
theorem Ready.consumeAll (stopping : http.Stopping) (splitting : http.Splitting)
    (ready : Ready http parser segments after) :
    ∃ machine early, (∀ value ∈ early, Onward value) ∧
      ∀ fuel, parser.consumeAll http (fuel + 1) segments =
        .ok (⟨machine, after, true⟩, early ++ [⟨.endOfMessage, 0⟩]) := by
  induction segments generalizing parser with
  | nil => exact absurd rfl ready.completes.some
  | cons segment rest ih =>
      obtain ⟨next, _, _, appended, code, last, more⟩ := ready.step stopping splitting
      have first : segment ≠ [] := ready.filled segment List.mem_cons_self
      have step (fuel : Nat) : parser.consume http (fuel + 1) segment false =
          .ok (next, ⟨next.codeAfter http, 0⟩) := by
        rw [consume_eq stopping ready.coherent fuel first, appended]
        simp
      by_cases ended : rest = []
      · refine ⟨next.machine, [], by simp, fun fuel => ?_⟩
        rw [Parser.consumeAll, step, code, ended, ← last ended]
        rfl
      · obtain ⟨machine, early, before, consumed⟩ := ih (more ended)
        have inside : Onward ⟨next.codeAfter http, 0⟩ := by
          refine ⟨rfl, ?_⟩
          rw [code, if_neg ended]
          split
          · exact .inr rfl
          · exact .inl rfl
        refine ⟨machine, _ :: early, List.forall_mem_cons.mpr ⟨inside, before⟩, fun fuel => ?_⟩
        rw [Parser.consumeAll, step]
        simp only [bind, Except.bind]
        rw [consumed fuel]
        rfl

end Parser

end Marvin.Http
