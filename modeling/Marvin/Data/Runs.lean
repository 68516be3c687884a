import Mathlib.Init

namespace Marvin.Data

/-! The maximal runs of symbols of a text that are not separators.

`List.splitOnP` lists them in order, with an empty run between two neighbouring
separators.
-/

variable {α : Type u}

/-- Nothing but a separator, or the end of the text, is next to a run. -/
def Edge (separates : α → Bool) (next : Option α) : Prop :=
  ∀ symbol ∈ next, separates symbol = true

theorem Edge.cons {separates : α → Bool} {symbol : α} {rest : List α}
    (edge : Edge separates (symbol :: rest).head?) : separates symbol = true :=
  edge symbol rfl

variable {separates : α → Bool} {text run : List α}

theorem edge_some {symbol : α} (separated : separates symbol = true) :
    Edge separates (some symbol) := by
  intro other same
  cases same
  exact separated

/-- A separator in front of a text does not change what is at its end. -/
theorem edge_append_cons {first front : List α} {separator : α}
    (separated : separates separator = true) (left : Edge separates front.getLast?) :
    Edge separates (first ++ separator :: front).getLast? := by
  cases front with
  | nil =>
      rw [List.getLast?_concat]
      exact edge_some separated
  | cons head tail =>
      have last : (first ++ separator :: head :: tail).getLast? = (head :: tail).getLast? := by
        rw [List.getLast?_append, List.getLast?_cons_cons,
          List.getLast?_eq_some_getLast (List.cons_ne_nil head tail)]
        rfl
      rwa [last]

theorem run_of_mem_splitOnP (member : run ∈ text.splitOnP separates) :
    ∃ front back, text = front ++ run ++ back ∧ (∀ symbol ∈ run, separates symbol = false) ∧
      Edge separates front.getLast? ∧ Edge separates back.head? := by
  induction size : text.length using Nat.strongRecOn generalizing text with
  | _ length ih =>
      cases found : text.find? separates with
      | none =>
          have plain : ∀ symbol ∈ text, separates symbol = false := by
            simpa using List.find?_eq_none.mp found
          rw [List.splitOnP_eq_singleton plain, List.mem_singleton] at member
          subst member
          exact ⟨[], [], by simp, plain, nofun, nofun⟩
      | some separator =>
          obtain ⟨separated, first, rest, rfl, plain⟩ := List.find?_eq_some_iff_append.mp found
          rw [List.splitOnP_append_cons_of_forall_mem (by simpa using plain) separator separated,
            List.mem_cons] at member
          rcases member with same | later
          · subst same
            exact ⟨[], separator :: rest, by simp, by simpa using plain, nofun, edge_some separated⟩
          · have shorter : rest.length < length := by
              rw [← size, List.length_append, List.length_cons]
              omega
            obtain ⟨front, back, rfl, inside, left, right⟩ := ih rest.length shorter later rfl
            exact ⟨first ++ separator :: front, back, by simp, inside,
              edge_append_cons separated left, right⟩

theorem mem_splitOnP_of_run {front back : List α}
    (inside : ∀ symbol ∈ run, separates symbol = false) (left : Edge separates front.getLast?)
    (right : Edge separates back.head?) : run ∈ (front ++ run ++ back).splitOnP separates := by
  have starts : run ∈ (run ++ back).splitOnP separates := by
    cases back with
    | nil =>
        rw [List.append_nil, List.splitOnP_eq_singleton inside]
        exact List.mem_singleton_self run
    | cons separator rest =>
        rw [List.splitOnP_append_cons_of_forall_mem inside separator (right separator rfl)]
        exact List.mem_cons_self
  rcases List.eq_nil_or_concat front with none | ⟨rest, separator, rfl⟩
  · subst none
    simpa using starts
  · have separated : separates separator = true := left separator (by simp)
    rw [List.concat_eq_append, List.append_assoc, List.append_assoc, List.singleton_append,
      List.splitOnP_append_cons rest (run ++ back) separated]
    exact List.mem_append_right _ starts

theorem mem_splitOnP_iff :
    run ∈ text.splitOnP separates ↔
      ∃ front back, text = front ++ run ++ back ∧ (∀ symbol ∈ run, separates symbol = false) ∧
        Edge separates front.getLast? ∧ Edge separates back.head? := by
  constructor
  · exact run_of_mem_splitOnP
  · intro found
    obtain ⟨front, back, rfl, inside, left, right⟩ := found
    exact mem_splitOnP_of_run inside left right

end Marvin.Data
