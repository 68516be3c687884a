import Marvin.Http.Parser

namespace Marvin.Http

open Marvin.Data Marvin.Buffer

/-! # Independence of segmentation

The callbacks of `Parser` make the same message out of a report and out of any
finer one: names, values, targets and reasons are accumulated, and a body is
the same bytes although its chain may have other blocks.
-/

namespace MessageBase

/-- The messages agree in everything but the blocks their bodies are stored in. -/
def Same (left right : MessageBase) : Prop :=
  { left with body := right.body } = right ∧ left.body.toString = right.body.toString

theorem Same.refl (message : MessageBase) : message.Same message := ⟨rfl, rfl⟩

theorem Same.trans {left middle right : MessageBase} (first : left.Same middle)
    (second : middle.Same right) : left.Same right := by
  refine ⟨?_, first.2.trans second.2⟩
  have inner := first.1
  rw [← inner] at second
  exact second.1

end MessageBase

namespace ParserContext

def withBody (context : ParserContext) (body : BufferChain) : ParserContext :=
  { context with message := { context.message with body } }

theorem dispatch_withBody {event : Event} (other : ∀ piece, event ≠ .body piece)
    (context : ParserContext) (body : BufferChain) :
    (context.withBody body).dispatch event = (context.dispatch event).map (·.withBody body) := by
  cases event with
  | body piece => exact absurd rfl (other piece)
  | headerField piece =>
      cases state : context.headerState with
      | field => simp [dispatch, onHeaderFieldData, withBody, state, pure, Except.pure, Except.map]
      | nothing | value =>
          by_cases empty : context.nameStringbuf = []
          · simp [dispatch, onHeaderFieldData, withBody, state, commitLine, empty, pure,
              Except.pure, Except.map]
          · simp [dispatch, onHeaderFieldData, withBody, state, commitLine, empty, pure,
              Except.pure, Except.map, MessageBase.setHeaderPtr]
  | headerValue piece =>
      cases state : context.headerState <;>
        simp [dispatch, onHeaderValueData, withBody, state, pure, Except.pure, Except.map, throw,
          throwThe, MonadExceptOf.throw]
  | headersComplete method major minor =>
      by_cases empty : context.nameStringbuf = [] <;>
        by_cases target : context.urlStringbuf = [] <;>
          by_cases reason : context.statusStringbuf = [] <;>
            simp [dispatch, onHeadersComplete, commitLastLine, withBody, empty, target, reason,
              pure, Except.pure, Except.map, MessageBase.setHeader, MessageBase.setVersion,
              MessageBase.setMethod, MessageBase.setTarget, MessageBase.setReason]
  | messageBegin | url | status | chunkHeader | chunkComplete | messageComplete => rfl

theorem dispatch_body {event : Event} (other : ∀ piece, event ≠ .body piece)
    {context after : ParserContext} (handled : context.dispatch event = .ok after) :
    after.message.body = context.message.body := by
  have same := dispatch_withBody other context context.message.body
  have self : context.withBody context.message.body = context := rfl
  rw [self, handled] at same
  simp only [Except.map, Except.ok.injEq] at same
  rw [same]
  rfl

/-- The contexts differ at most in the blocks of the body. -/
structure Like (fine coarse : ParserContext) : Prop where
  same : fine.withBody coarse.message.body = coarse
  fineBuilt : fine.message.body.Built
  coarseBuilt : coarse.message.body.Built
  text : fine.message.body.toString = coarse.message.body.toString

theorem Like.refl {context : ParserContext} (built : context.message.body.Built) :
    Like context context :=
  ⟨rfl, built, built, rfl⟩

theorem Like.trans {fine middle coarse : ParserContext} (first : Like fine middle)
    (second : Like middle coarse) : Like fine coarse := by
  refine ⟨?_, first.fineBuilt, second.coarseBuilt, first.text.trans second.text⟩
  have inner := first.same
  have outer := second.same
  rw [← inner] at outer
  exact outer

theorem Like.message {fine coarse : ParserContext} (like : Like fine coarse) :
    fine.message.Same coarse.message := by
  refine ⟨?_, like.text⟩
  have same := congrArg ParserContext.message like.same
  exact same

theorem onBodyData_ok {context : ParserContext} (built : context.message.body.Built)
    {piece : Bytes} (small : piece.length + 100 ≤ 1024 * 1024) :
    ∃ body, context.dispatch (.body piece) = .ok (context.withBody body) ∧ body.Built ∧
      body.toString = context.message.body.toString ++ piece := by
  obtain ⟨body, appended, grown, text⟩ := BufferChain.append_ok built piece small
  refine ⟨body, ?_, grown, text⟩
  simp [dispatch, onBodyData, appended, bind, Except.bind, pure, Except.pure, withBody]

theorem small_of_onBodyData {context after : ParserContext} (built : context.message.body.Built)
    {piece : Bytes} (handled : context.dispatch (.body piece) = .ok after) :
    piece.length + 100 ≤ 1024 * 1024 := by
  obtain ⟨_, appended, _⟩ := dispatch_body_cases handled
  exact BufferChain.small_of_append built appended

theorem dispatch_built {context after : ParserContext} {event : Event}
    (built : context.message.body.Built) (handled : context.dispatch event = .ok after) :
    after.message.body.Built := by
  by_cases data : ∃ piece, event = .body piece
  · obtain ⟨piece, rfl⟩ := data
    obtain ⟨body, appended, grown, _⟩ := onBodyData_ok built (small_of_onBodyData built handled)
    obtain rfl := Except.ok.inj (appended.symm.trans handled)
    exact grown
  · rw [dispatch_body (fun piece same => data ⟨piece, same⟩) handled]
    exact built

theorem handle_built {context after : ParserContext} {events : List Event}
    (built : context.message.body.Built) (handled : context.handle events = .ok after) :
    after.message.body.Built :=
  handle_induction dispatch_built built handled

theorem dispatch_like {fine coarse after : ParserContext} (like : Like fine coarse) {event : Event}
    (handled : coarse.dispatch event = .ok after) :
    ∃ next, fine.dispatch event = .ok next ∧ Like next after := by
  by_cases data : ∃ piece, event = .body piece
  · obtain ⟨piece, rfl⟩ := data
    have small := small_of_onBodyData like.coarseBuilt handled
    obtain ⟨body, appended, grown, text⟩ := onBodyData_ok like.fineBuilt small
    obtain ⟨whole, appendedWhole, grownWhole, textWhole⟩ := onBodyData_ok like.coarseBuilt small
    obtain rfl := Except.ok.inj (appendedWhole.symm.trans handled)
    refine ⟨fine.withBody body, appended, ?_, grown, grownWhole, ?_⟩
    · rw [← like.same]
      rfl
    · exact text.trans ((congrArg (· ++ piece) like.text).trans textWhole.symm)
  · have other : ∀ piece, event ≠ .body piece := fun piece same => data ⟨piece, same⟩
    rw [← like.same, dispatch_withBody other] at handled
    cases step : fine.dispatch event with
    | error fault => simp [step, Except.map] at handled
    | ok next =>
        simp only [step, Except.map, Except.ok.injEq] at handled
        subst handled
        have kept := dispatch_body other step
        refine ⟨next, rfl, rfl, ?_, like.coarseBuilt, ?_⟩
        · rw [kept]
          exact like.fineBuilt
        · rw [kept]
          exact like.text

theorem handle_like {fine coarse after : ParserContext} (like : Like fine coarse)
    {events : List Event} (handled : coarse.handle events = .ok after) :
    ∃ next, fine.handle events = .ok next ∧ Like next after := by
  induction events generalizing fine coarse with
  | nil =>
      obtain rfl : coarse = after := by simpa using handled
      exact ⟨fine, rfl, like⟩
  | cons event rest ih =>
      obtain ⟨middle, first, later⟩ := handle_cons_ok handled
      obtain ⟨next, step, closer⟩ := dispatch_like like first
      obtain ⟨last, rested, final⟩ := ih closer later
      exact ⟨last, by rw [handle_cons_of_ok step, rested], final⟩

theorem onBodyData_join {context after : ParserContext} (built : context.message.body.Built)
    {one two : Bytes} (handled : context.onBodyData (one ++ two) = .ok after) :
    ∃ next, context.handle [.body one, .body two] = .ok next ∧ Like next after := by
  have small := small_of_onBodyData built handled
  rw [List.length_append] at small
  obtain ⟨whole, appended, grown, text⟩ :=
    @onBodyData_ok context built (one ++ two) (by rw [List.length_append]; exact small)
  obtain rfl := Except.ok.inj (appended.symm.trans handled)
  obtain ⟨left, appendedLeft, grownLeft, textLeft⟩ := @onBodyData_ok context built one (by omega)
  obtain ⟨right, appendedRight, grownRight, textRight⟩ :=
    @onBodyData_ok (context.withBody left) grownLeft two (by omega)
  refine ⟨(context.withBody left).withBody right, ?_, rfl, grownRight, grown, ?_⟩
  · rw [handle_cons_of_ok appendedLeft, handle_cons_of_ok appendedRight]
    rfl
  · refine textRight.trans (Eq.trans ?_ text.symm)
    rw [← List.append_assoc, ← textLeft]
    rfl

theorem dispatch_join {context after : ParserContext} (built : context.message.body.Built)
    {first second joined : Event} (same : first.join second = some joined)
    (handled : context.dispatch joined = .ok after) :
    ∃ next, context.handle [first, second] = .ok next ∧ Like next after := by
  have exactly (equal : context.handle [first, second] = context.dispatch joined) :
      ∃ next, context.handle [first, second] = .ok next ∧ Like next after :=
    ⟨after, equal.trans handled, .refl (dispatch_built built handled)⟩
  cases first <;> cases second <;> simp only [Event.join, reduceCtorEq, Option.some.injEq] at same
  case url.url one two =>
      subst same
      apply exactly
      simp [handle, List.foldlM, dispatch, onUrlData, pure, Except.pure, bind, Except.bind,
        MessageBase.setIsRequest]
  case status.status code one code' two =>
      split at same
      · next equal =>
          cases same
          subst equal
          apply exactly
          simp [handle, List.foldlM, dispatch, onStatusData, pure, Except.pure, bind, Except.bind,
            MessageBase.setIsRequest, MessageBase.setStatusCode]
      · cases same
  case headerField.headerField one two =>
      subst same
      apply exactly
      cases state : context.headerState <;>
        simp [handle, List.foldlM, dispatch, onHeaderFieldData, state, pure, Except.pure, bind,
          Except.bind]
  case headerValue.headerValue one two =>
      subst same
      apply exactly
      cases state : context.headerState <;>
        simp [handle, List.foldlM, dispatch, onHeaderValueData, state, pure, Except.pure, bind,
          Except.bind, throw, throwThe, MonadExceptOf.throw]
  case body.body one two =>
      subst same
      exact onBodyData_join built handled

theorem handle_cut {fine coarse after : ParserContext} (like : Like fine coarse)
    {whole pieces : List Event} (cut : Cut whole pieces) (handled : coarse.handle whole = .ok after) :
    ∃ next, fine.handle pieces = .ok next ∧ Like next after := by
  cases cut with
  | @intro first second joined before rest same =>
      obtain ⟨reached, early, late⟩ : ∃ reached, fine.handle (before ++ joined :: rest) = .ok reached ∧
          Like reached after := handle_like like handled
      obtain ⟨middle, started, joining⟩ := handle_append_ok early
      obtain ⟨merged, step, rested⟩ := handle_cons_ok joining
      have built := handle_built like.fineBuilt started
      obtain ⟨split, pair, near⟩ := dispatch_join built same step
      obtain ⟨next, final, closer⟩ := handle_like near rested
      refine ⟨next, ?_, closer.trans late⟩
      rw [handle_append_of_ok started]
      have grouped : first :: second :: rest = [first, second] ++ rest := rfl
      rw [grouped, handle_append_of_ok pair, final]

/-- A report that is handled without a fault is handled to the same effect when
it is made in finer pieces. -/
theorem handle_finer {fine coarse after : ParserContext} (like : Like fine coarse)
    {whole pieces : List Event} (finer : Finer whole pieces)
    (handled : coarse.handle whole = .ok after) :
    ∃ next, fine.handle pieces = .ok next ∧ Like next after := by
  induction finer with
  | refl => exact handle_like like handled
  | tail _ cut ih =>
      obtain ⟨middle, reached, near⟩ := ih
      obtain ⟨next, final, closer⟩ := handle_cut (.refl like.fineBuilt) cut reached
      exact ⟨next, final, closer.trans near⟩

end ParserContext

end Marvin.Http
