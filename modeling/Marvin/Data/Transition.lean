import Mathlib.Init

namespace Marvin.Data

/-! Transition systems with labelled steps, and the states their runs reach.

A guard restricts which labels a run may take in which states.  Results about
guarded runs are proved with `Reaches.invariant`; an unguarded run is one under
the guard that is always true.
-/

structure Transition (α : Type u) (ι : Type v) where
  initial : α → Prop
  step : α → ι → α → Prop

namespace Transition

variable {α : Type u} {ι : Type v}

inductive Reaches (system : Transition α ι) (guard : α → ι → Prop) : α → Prop where
  | initial {state : α} (start : system.initial state) : Reaches system guard state
  | step {state next : α} {label : ι} (reached : Reaches system guard state)
      (allowed : guard state label) (taken : system.step state label next) :
      Reaches system guard next

def unguarded : α → ι → Prop := fun _ _ => True

instance (state : α) : DecidablePred (unguarded state : ι → Prop) := fun _ => .isTrue trivial

theorem Reaches.invariant {system : Transition α ι} {guard : α → ι → Prop} {holds : α → Prop}
    (starts : ∀ {state}, system.initial state → holds state)
    (keeps : ∀ {state label next}, holds state → guard state label →
      system.step state label next → holds next)
    {state : α} (reached : system.Reaches guard state) : holds state := by
  induction reached with
  | initial start => exact starts start
  | step _ allowed taken ih => exact keeps ih allowed taken

theorem Reaches.mono {system : Transition α ι} {guard weaker : α → ι → Prop}
    (implied : ∀ {state label}, guard state label → weaker state label) {state : α}
    (reached : system.Reaches guard state) : system.Reaches weaker state := by
  induction reached with
  | initial start => exact .initial start
  | step _ allowed taken ih => exact .step ih (implied allowed) taken

/-- The same steps, begun in the given state. -/
def resume (system : Transition α ι) (state : α) : Transition α ι :=
  { system with initial := (· = state) }

theorem Reaches.resume {system : Transition α ι} {guard : α → ι → Prop} {state final : α}
    (reached : system.Reaches guard state)
    (later : (system.resume state).Reaches guard final) : system.Reaches guard final := by
  induction later with
  | initial start => exact start ▸ reached
  | step _ allowed taken ih => exact .step ih allowed taken

/-! ## Systems given by a step function -/

variable {ε : Type w}

/-- The steps are the enabled ones that do not end in an error. -/
def ofStep (initial : α → Prop) (enabled : α → ι → Prop) (step : α → ι → Except ε α) :
    Transition α ι where
  initial := initial
  step state label next := enabled state label ∧ step state label = .ok next

variable {initial : α → Prop} {guard enabled : α → ι → Prop} {step : α → ι → Except ε α}

theorem ofStep_invariant {holds : α → Prop} (starts : ∀ {state}, initial state → holds state)
    (keeps : ∀ {state label}, holds state → guard state label → enabled state label →
      ∃ next, step state label = .ok next ∧ holds next)
    {state : α} (reached : (ofStep initial enabled step).Reaches guard state) : holds state := by
  refine reached.invariant starts fun {state label next} held allowed taken => ?_
  obtain ⟨other, stepped, kept⟩ := keeps held allowed taken.1
  obtain rfl := Except.ok.inj (stepped.symm.trans taken.2)
  exact kept

section

variable (guard enabled step)
variable [∀ state, DecidablePred (guard state)] [∀ state, DecidablePred (enabled state)]

/-- The next state, when the step is allowed and enabled and does not fail. -/
def attempt (state : α) (label : ι) : Option α :=
  if guard state label ∧ enabled state label then (step state label).toOption else none

variable {guard enabled step}

theorem attempt_eq_some {state next : α} {label : ι} :
    attempt guard enabled step state label = some next ↔
      (guard state label ∧ enabled state label) ∧ step state label = .ok next := by
  unfold attempt
  split
  · next ready =>
      cases step state label with
      | error reason => simp [Except.toOption]
      | ok after => simpa [Except.toOption] using fun _ => ready
  · next refused => simp [refused]

/-- A run given by its labels. -/
theorem ofStep_follow {labels : List ι} {state final : α}
    (reached : (ofStep initial enabled step).Reaches guard state)
    (followed : labels.foldlM (attempt guard enabled step) state = some final) :
    (ofStep initial enabled step).Reaches guard final := by
  induction labels generalizing state with
  | nil =>
      obtain rfl : state = final := by simpa using followed
      exact reached
  | cons label rest ih =>
      rw [List.foldlM_cons, Option.bind_eq_bind, Option.bind_eq_some_iff] at followed
      obtain ⟨next, first, later⟩ := followed
      obtain ⟨ready, stepped⟩ := attempt_eq_some.mp first
      exact ih (.step reached ready.1 ⟨ready.2, stepped⟩) later

/-- What a run given by its labels keeps, in terms of the labels taken so far. -/
theorem follow_invariant {holds : List ι → α → Prop}
    (keeps : ∀ {taken state label next}, holds taken state → enabled state label →
      step state label = .ok next → holds (taken ++ [label]) next)
    {taken labels : List ι} {state final : α} (held : holds taken state)
    (followed : labels.foldlM (attempt guard enabled step) state = some final) :
    holds (taken ++ labels) final := by
  induction labels generalizing taken state with
  | nil =>
      obtain rfl : state = final := by simpa using followed
      simpa using held
  | cons label rest ih =>
      rw [List.foldlM_cons, Option.bind_eq_bind, Option.bind_eq_some_iff] at followed
      obtain ⟨next, first, later⟩ := followed
      obtain ⟨ready, stepped⟩ := attempt_eq_some.mp first
      have kept := ih (keeps held ready.2 stepped) later
      rwa [List.append_assoc, List.singleton_append] at kept

theorem ofStep_follow_allowed {allows : α → ι → Prop} {labels : List ι}
    (allowed : ∀ state, ∀ label ∈ labels, allows state label) {state final : α}
    (reached : (ofStep initial enabled step).Reaches allows state)
    (followed : labels.foldlM (attempt unguarded enabled step) state = some final) :
    (ofStep initial enabled step).Reaches allows final := by
  induction labels generalizing state with
  | nil =>
      obtain rfl : state = final := by simpa using followed
      exact reached
  | cons label rest ih =>
      rw [List.foldlM_cons, Option.bind_eq_bind, Option.bind_eq_some_iff] at followed
      obtain ⟨next, first, later⟩ := followed
      obtain ⟨ready, stepped⟩ := attempt_eq_some.mp first
      refine ih (fun state label member => allowed state label (List.mem_cons_of_mem _ member)) ?_
        later
      exact .step reached (allowed state label List.mem_cons_self) ⟨ready.2, stepped⟩

end

end Transition

end Marvin.Data
