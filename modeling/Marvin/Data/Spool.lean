import Mathlib.Data.List.Basic

namespace Marvin.Data

/-! Items that are given to a printer and printed later, one at a time.

What an item is printed as can depend on the circumstances at that time.  A spool
keeps what was given and the circumstances of each print beside the queue and the
output, so that the output can be read off them.
-/

structure Spool (ε : Type u) (α : Type v) (β : Type w) where
  given : List α
  posted : List α
  circumstances : List ε
  output : List β
deriving DecidableEq, Repr

namespace Spool

variable {ε : Type u} {α : Type v} {β : Type w}

def new : Spool ε α β := ⟨[], [], [], []⟩

def post (spool : Spool ε α β) (item : α) : Spool ε α β :=
  { spool with given := spool.given ++ [item], posted := spool.posted ++ [item] }

def run (render : ε → α → List β) (circumstance : ε) (spool : Spool ε α β) : Spool ε α β :=
  match spool.posted with
  | [] => spool
  | item :: rest =>
      { spool with
        posted := rest
        circumstances := spool.circumstances ++ [circumstance]
        output := spool.output ++ render circumstance item }

/-- How many items are printed. -/
def printed (spool : Spool ε α β) : Nat := spool.circumstances.length

/-- The items are printed in the order they were given, each once and whole. -/
structure InOrder (render : ε → α → List β) (spool : Spool ε α β) : Prop where
  printed : spool.printed ≤ spool.given.length
  posted : spool.posted = spool.given.drop spool.printed
  output : spool.output = (List.zipWith render spool.circumstances spool.given).flatten

variable {render : ε → α → List β} {spool : Spool ε α β}

theorem zipWith_longer (circumstances : List ε) (given more : List α)
    (covered : circumstances.length ≤ given.length) :
    List.zipWith render circumstances (given ++ more) = List.zipWith render circumstances given := by
  induction circumstances generalizing given with
  | nil => rfl
  | cons circumstance rest ih =>
      cases given with
      | nil => exact absurd covered (Nat.not_succ_le_zero _)
      | cons item given =>
          exact congrArg (render circumstance item :: ·) (ih given (Nat.le_of_succ_le_succ covered))

theorem InOrder.post (inOrder : spool.InOrder render) (item : α) :
    (spool.post item).InOrder render := by
  have covered := inOrder.printed
  refine ⟨?_, ?_, ?_⟩
  · change spool.printed ≤ (spool.given ++ [item]).length
    rw [List.length_append]
    omega
  · change spool.posted ++ [item] = (spool.given ++ [item]).drop spool.printed
    rw [List.drop_append_of_le_length covered, inOrder.posted]
  · exact inOrder.output.trans
      (congrArg List.flatten (zipWith_longer spool.circumstances spool.given [item] covered).symm)

theorem InOrder.run (inOrder : spool.InOrder render) (circumstance : ε) :
    (spool.run render circumstance).InOrder render := by
  cases waiting : spool.posted with
  | nil =>
      simp only [Spool.run, waiting]
      exact inOrder
  | cons item rest =>
      have covered := inOrder.printed
      have remaining : spool.given.drop spool.printed = item :: rest :=
        inOrder.posted.symm.trans waiting
      have split : spool.given = spool.given.take spool.printed ++ item :: rest := by
        rw [← remaining, List.take_append_drop]
      have front : (spool.given.take spool.printed).length = spool.circumstances.length := by
        rw [List.length_take]
        exact Nat.min_eq_left covered
      have long : spool.printed + 1 ≤ spool.given.length := by
        have size := congrArg List.length split
        simp only [List.length_append, List.length_cons, front] at size
        have same : spool.printed = spool.circumstances.length := rfl
        omega
      simp only [Spool.run, waiting]
      refine ⟨?_, ?_, ?_⟩
      · simpa [Spool.printed] using long
      · have next : spool.given.drop (spool.printed + 1) = rest := by
          rw [← List.drop_drop, remaining]
          rfl
        simpa [Spool.printed] using next.symm
      · have last : List.zipWith render (spool.circumstances ++ [circumstance]) spool.given =
            List.zipWith render spool.circumstances spool.given ++ [render circumstance item] := by
          have before : List.zipWith render spool.circumstances spool.given =
              List.zipWith render spool.circumstances (spool.given.take spool.printed) := by
            nth_rewrite 1 [split]
            exact zipWith_longer _ _ _ (Nat.le_of_eq front.symm)
          rw [before]
          nth_rewrite 1 [split]
          rw [List.zipWith_append front.symm]
          rfl
        simp [last, inOrder.output]

@[simp] theorem given_run (render : ε → α → List β) (circumstance : ε) (spool : Spool ε α β) :
    (spool.run render circumstance).given = spool.given := by
  unfold run
  split
  · rfl
  · rfl

theorem circumstances_run (render : ε → α → List β) (circumstance : ε) {spool : Spool ε α β}
    (waiting : spool.posted ≠ []) :
    (spool.run render circumstance).circumstances = spool.circumstances ++ [circumstance] := by
  unfold run
  split
  · next none => exact absurd none waiting
  · rfl

theorem mem_circumstances_run {circumstance other : ε} {spool : Spool ε α β}
    (member : other ∈ (spool.run render circumstance).circumstances) :
    other ∈ spool.circumstances ∨ other = circumstance := by
  unfold run at member
  split at member
  · exact .inl member
  · exact (List.mem_append.mp member).imp_right List.mem_singleton.mp

/-- Where the circumstances make no difference the output is that of the items. -/
theorem InOrder.output_eq {text : α → List β} (inOrder : spool.InOrder render)
    (same : ∀ circumstance ∈ spool.circumstances, render circumstance = text) :
    spool.output = (spool.given.take spool.printed).flatMap text := by
  have constant (circumstances : List ε) (given : List α)
      (same : ∀ circumstance ∈ circumstances, render circumstance = text) :
      List.zipWith render circumstances given = (given.take circumstances.length).map text := by
    induction circumstances generalizing given with
    | nil => rfl
    | cons circumstance rest ih =>
        cases given with
        | nil => rfl
        | cons item given =>
            have first := same circumstance List.mem_cons_self
            have later := ih given fun other member => same other (List.mem_cons_of_mem _ member)
            simp [first, later]
  rw [inOrder.output, constant _ _ same, List.flatMap_def]
  rfl

end Spool

end Marvin.Data
