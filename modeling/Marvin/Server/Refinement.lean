import Marvin.Data.Simulation
import Marvin.Server.RequestHandler

namespace Marvin.Server

open Marvin.Data

/-! # Request handlers in more detail

A request handler whose callbacks are small steps of another's: each is one callback
of the other, as far as the other can see, or none.  Then the server with the first
does what the server with the second does.
-/

variable {γ σ τ ι κ : Type}

/-- `good` is what the callbacks of the first handler keep, and `view` is what the
second has of its state. -/
structure RequestHandler.Refines (concrete : RequestHandler γ τ ι)
    (abstract : RequestHandler γ σ κ) (guard : γ → ι → Prop) (good : τ → Prop)
    (view : τ → σ) : Prop where
  begins : good concrete.handle ∧ view concrete.handle = abstract.handle
  done (state : τ) : concrete.done state = abstract.done (view state)
  turns {context next : γ} {before after : τ} {completion : ι} : good before →
    concrete.Enabled before completion → guard context completion →
    concrete.callback context before completion = .ok (next, after) →
    good after ∧ (next = context ∧ view after = view before ∨
      ∃ answer, abstract.Enabled (view before) answer ∧
        abstract.callback context (view before) answer = .ok (next, view after))
  outside {context next : γ} : concrete.outside context next → abstract.outside context next

namespace Serving

/-- The servers are in the same state but for what their handlers keep to themselves. -/
structure Viewed (good : τ → Prop) (view : τ → σ) (concrete : Serving γ τ) (abstract : Serving γ σ) :
    Prop where
  server : abstract.server = concrete.server
  context : abstract.context = concrete.context
  handlers : abstract.handlers = KeyedList.mapValues view concrete.handlers
  done : abstract.done = concrete.done
  ended : abstract.ended = concrete.ended
  good : ∀ entry ∈ concrete.handlers, good entry.value

variable {concrete : RequestHandler γ τ ι} {abstract : RequestHandler γ σ κ} {guard : γ → ι → Prop}
  {good : τ → Prop} {view : τ → σ} {serving next : Serving γ τ} {other : Serving γ σ}

theorem Viewed.server_step (refines : concrete.Refines abstract guard good view)
    (viewed : Viewed good view serving other) {input : TcpServer.Input}
    (enabled : serving.Enabled concrete (.server input))
    (stepped : serving.step concrete (.server input) = .ok next) :
    ∃ after, other.Enabled abstract (.server input) ∧
      other.step abstract (.server input) = .ok after ∧ Viewed good view next after := by
  obtain ⟨server, taken, rest⟩ := exists_ok_of_bind stepped
  obtain rfl := Except.ok.inj rest
  refine ⟨{ other with
    server
    handlers := other.handlers ++
      (served serving.server server).map (fun handler => ⟨handler, abstract.handle⟩) }, ?_, ?_, rfl,
    viewed.context, ?_, viewed.done, viewed.ended, ?_⟩
  · rw [Enabled, viewed.server]
    exact enabled
  · simp only [step, viewed.server, taken, bind, Except.bind]
    rfl
  · rw [KeyedList.mapValues_append, ← viewed.handlers, KeyedList.mapValues, List.map_map]
    simp only [Function.comp_def, refines.begins.2]
  · intro entry member
    rcases List.mem_append.mp member with old | new
    · exact viewed.good entry old
    · obtain ⟨handler, _, rfl⟩ := List.mem_map.mp new
      exact refines.begins.1

theorem Viewed.done_step (viewed : Viewed good view serving other) {handler : ConnectionHandler}
    (enabled : serving.Enabled concrete (.done handler))
    (stepped : serving.step concrete (.done handler) = .ok next) :
    ∃ after, other.Enabled abstract (.done handler) ∧
      other.step abstract (.done handler) = .ok after ∧ Viewed good view next after := by
  obtain ⟨server, taken, rest⟩ := exists_ok_of_bind stepped
  obtain rfl := Except.ok.inj rest
  refine ⟨{ other with
    server
    handlers := KeyedList.remove handler other.handlers
    done := other.done.erase handler
    ended := other.ended ++ [handler] }, ?_, ?_, rfl, viewed.context, ?_, ?_, ?_, ?_⟩
  · rw [Enabled, viewed.server, viewed.done]
    exact enabled
  · simp only [step, viewed.server, taken, bind, Except.bind]
    rfl
  · rw [KeyedList.mapValues_remove, ← viewed.handlers]
  · dsimp only
    rw [viewed.done]
  · dsimp only
    rw [viewed.ended]
  · intro entry member
    exact viewed.good entry (List.mem_of_mem_eraseP member)

theorem Viewed.callback_step (refines : concrete.Refines abstract guard good view)
    (viewed : Viewed good view serving other) {handler : ConnectionHandler} {completion : ι}
    (guarded : guard serving.context completion)
    (enabled : serving.Enabled concrete (.callback handler completion))
    (stepped : serving.step concrete (.callback handler completion) = .ok next) :
    Viewed good view next other ∨
      ∃ answer after, other.Enabled abstract (.callback handler answer) ∧
        other.step abstract (.callback handler answer) = .ok after ∧ Viewed good view next after := by
  obtain ⟨running, before, found, ready⟩ := enabled
  simp only [step, callback, Option.mem_def.mp found] at stepped
  obtain ⟨⟨context, after⟩, called, rest⟩ := exists_ok_of_bind stepped
  obtain rfl := Except.ok.inj rest
  have seen : KeyedList.lookup handler other.handlers = some (view before) := by
    rw [viewed.handlers, KeyedList.lookup_mapValues, Option.mem_def.mp found]
    rfl
  obtain ⟨better, turn⟩ :=
    refines.turns (viewed.good _ (KeyedList.mem_of_lookup found)) ready guarded called
  have kept : ∀ entry ∈ KeyedList.put handler after serving.handlers, good entry.value := by
    intro entry member
    rcases KeyedList.mem_put member with rfl | old
    · exact better
    · exact viewed.good entry old
  have posted : concrete.done after - concrete.done before =
      abstract.done (view after) - abstract.done (view before) := by
    rw [refines.done, refines.done]
  rcases turn with ⟨same, unseen⟩ | ⟨answer, allowed, answered⟩
  · refine .inl ⟨viewed.server, viewed.context.trans same.symm, ?_, ?_, viewed.ended, kept⟩
    · rw [KeyedList.mapValues_put, ← viewed.handlers, unseen, KeyedList.put_of_lookup seen]
    · dsimp only
      rw [posted, unseen, Nat.sub_self, List.replicate_zero, List.append_nil, viewed.done]
  · refine .inr ⟨answer, { other with
      context
      handlers := KeyedList.put handler (view after) other.handlers
      done := other.done ++
        List.replicate (abstract.done (view after) - abstract.done (view before)) handler
      callbacks := other.callbacks + 1 }, ⟨viewed.server ▸ running, view before, seen, allowed⟩, ?_,
      viewed.server, rfl, ?_, ?_, viewed.ended, kept⟩
    · simp only [step, callback, seen, viewed.context, answered, bind, Except.bind]
      rfl
    · rw [KeyedList.mapValues_put, ← viewed.handlers]
    · dsimp only
      rw [posted, viewed.done]

/-- Every state that the server reaches with the first handler is one that it reaches
with the second. -/
theorem reaches_refined (refines : concrete.Refines abstract guard good view) {maxConnections : Nat}
    {context : γ} (reached : (runs concrete maxConnections context).Reaches (Guarded guard) serving) :
    ∃ other, (runs abstract maxConnections context).Reaches Transition.unguarded other ∧
      Viewed good view serving other := by
  refine reached.simulated ?_ ?_
  · intro state start
    obtain rfl : state = listen maxConnections context := start
    exact ⟨listen maxConnections context, rfl, rfl, rfl, rfl, rfl, rfl,
      fun _ member => absurd member List.not_mem_nil⟩
  · intro state input after other viewed guarded taken
    obtain ⟨enabled, stepped⟩ := taken
    cases input with
    | server input =>
        obtain ⟨final, ready, moved, follows⟩ := viewed.server_step refines enabled stepped
        exact .inr ⟨.server input, final, ⟨ready, moved⟩, follows⟩
    | callback handler completion =>
        rcases viewed.callback_step refines guarded enabled stepped with
          stays | ⟨answer, final, ready, moved, follows⟩
        · exact .inl stays
        · exact .inr ⟨.callback handler answer, final, ⟨ready, moved⟩, follows⟩
    | done handler =>
        obtain ⟨final, ready, moved, follows⟩ := viewed.done_step enabled stepped
        exact .inr ⟨.done handler, final, ⟨ready, moved⟩, follows⟩
    | outside context =>
        obtain rfl := Except.ok.inj stepped
        refine .inr ⟨.outside context, { other with context }, ⟨?_, rfl⟩, viewed.server, rfl,
          viewed.handlers, viewed.done, viewed.ended, viewed.good⟩
        have allowed : concrete.outside state.context context := enabled
        rw [← viewed.context] at allowed
        exact refines.outside allowed

end Serving

end Marvin.Server
